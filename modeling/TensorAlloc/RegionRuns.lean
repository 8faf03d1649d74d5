/-
  File:      TensorAlloc/RegionRuns.lean
  Subject:   Runs of allocations and frees on nodes that are divided.

  * `StepMeets` -- what a step must not run into, judged by the state before it: a MOVABLE block is cut
    only where the split measures in the level's unit, and a free merges with blocks of its own lists;
  * `alloc_stepped`, `free_stepped` -- one step of the code is none, one or two of `Division.Step`;
  * `regions_apart` -- nodes with descriptors of their own, in any order of steps.
-/
import TensorAlloc.Checks
import TensorAlloc.RegionFree
import TensorAlloc.RegionRow

namespace TensorAlloc

open DyadicBlocks

/-! ## 1. The cache -/

section Cache

variable {st st1 : State} {nu n : Nat} {held : List Item} {i : Item}

/-- **A block off the cache.** -/
theorem Region.uncached (hR : Region st nu held n) (hi : i ∈ st.lists (cacheCell nu))
    (hd : listDel st i = some st1) :
    Stepped st (st1.countDec (cacheCell nu)) nu held (i :: held) n := by
  have ho := (hR.linked.mem i _).mpr hi
  have hlinked := (hR.linked.listDel hd).countDec (cacheCell nu)
  obtain ⟨hother, hnone, hflags, -⟩ := listDel_items hd
  rw [listDel_of ho, Option.some.injEq] at hd
  have hlists : ∀ l, st1.lists l = if l = cacheCell nu then (st.lists (cacheCell nu)).erase i
      else st.lists l := by
    intro l
    rw [← hd, State.modItem_lists, State.setList_lists]
  have hcounts : st1.counts = st.counts := by rw [← hd]; rfl
  have hnot : i ∉ held := fun hm => by
    rw [hR.off i hm] at ho
    cases ho
  obtain ⟨d, hdn, hself⟩ := hR.inRange (.inr hi)
  refine hR.moved hlinked ?_ (by rw [← hd]; rfl) (by rw [← hd]; rfl) (fun node _ => by rw [← hd]; rfl)
    (fun h hh => ?_) ?_ (fun j => ?_) (fun j hj => ?_) ?_
    (List.nodup_cons.mpr ⟨hnot, hR.nodup⟩) fun j hj => ?_
  · exact hR.node.congr (by rw [← hd]; rfl) (by rw [← hd]; rfl) (by rw [← hd]; rfl)
      (by rw [← hd]; exact hR.node.mode)
  · rw [State.countDec_lists, hlists, if_neg hh]
  · funext l
    by_cases hl : l = cacheCell nu
    · subst hl
      refine drift_loss ?_ ?_
      · rw [State.countDec_lists, hlists, if_pos rfl, List.length_erase_of_mem hi]
        have := List.length_pos_of_mem hi
        omega
      · rw [State.countDec_counts, if_pos rfl, hcounts]
    · unfold State.drift
      rw [State.countDec_lists, hlists, if_neg hl, State.countDec_counts, if_neg hl, hcounts]
  · show marks (st1.items j) = _
    by_cases hj : j = i
    · subst hj
      unfold marks
      rw [hflags]
    · rw [hother j hj]
  · exact hother j fun e => hj d hdn (e.trans hself)
  · rw [State.countDec_lists, hlists, if_pos rfl]
    exact (List.perm_middle.symm).trans ((List.perm_cons_erase hi).symm.append_left held)
  · show (st1.items j).onList = none
    rcases List.mem_cons.mp hj with rfl | hj
    · exact hnone
    · rw [hother j fun e => hnot (e ▸ hj)]
      exact hR.off j hj

/-- **A block into the cache.** -/
theorem Region.cached (hR : Region st nu held n) (hi : i ∈ held) :
    Stepped st ((st.pushHead (cacheCell nu) i).countInc (cacheCell nu)) nu held (held.erase i) n := by
  obtain ⟨d, hdn, hself⟩ := hR.inRange (.inl hi)
  refine hR.moved ((hR.linked.pushHead (hR.off i hi) _).countInc _) ?_ rfl rfl (fun _ _ => rfl)
    (fun h hh => ?_) ?_ (fun j => st.pushHead_keeps _ i j marks rfl) (fun j hj => ?_) ?_
    (hR.nodup.erase i) fun j hj => ?_
  · exact hR.node.congr rfl rfl rfl hR.node.mode
  · rw [State.countInc_lists, State.pushHead_lists, if_neg hh]
  · funext l
    by_cases hl : l = cacheCell nu
    · subst hl
      exact drift_gain (by simp) (by simp)
    · unfold State.drift
      simp [hl]
  · exact (st.pushHead_items _ i j).trans (if_neg fun e => hj d hdn (e.trans hself))
  · rw [State.countInc_lists, State.pushHead_lists, if_pos rfl]
    exact List.perm_middle.trans ((List.perm_cons_erase hi).symm.append_right _)
  · obtain ⟨hne, hj⟩ := hR.nodup.mem_erase_iff.mp hj
    show ((st.pushHead (cacheCell nu) i).items j).onList = none
    rw [State.pushHead_items, if_neg hne]
    exact hR.off j hj

end Cache

/-! ## 2. One step -/

/-- The word read at the rounded address of the block taken is NULL, so no table is charged. -/
def NoTable (itemarrayPrev : ItemarrayPrev) (st : State) (nu lvl order : Nat) (item : Item) : Prop :=
  ∀ st1, removeGroupMigration st (.phy nu lvl) lvl order .movable false = some (st1, some item) →
    itemarrayPrev st1 item = some none

/-- The MOVABLE lists of the level serve a request with a block of its order, or on the level whose
    unit is one descriptor. -/
def UnitServes (itemarrayPrev : ItemarrayPrev) (st : State) (nu lvl order : Nat) : Prop :=
  ∃ oi item, Takes st nu lvl order .movable oi item ∧ (oi = order ∨ lvl = maxGroupLvls) ∧
    NoTable itemarrayPrev st nu lvl order item

/-- What an allocation must meet: its level is one, and where it goes to the MOVABLE lists, in the mode
    of a migration, they serve it. -/
structure AllocMeets (itemarrayPrev : ItemarrayPrev) (st : State) (nu lvl order : Nat)
    (mt : MigrationType) : Prop where
  level : lvl < groupLvlNum
  migrated : cachedHead st (.phy nu) mt = none → ¬ OwnServes st nu lvl order mt →
    mt ≠ .reclaimable → UnitServes itemarrayPrev (migrateStart st (.phy nu) mt) nu lvl order

/-- What a step must meet, judged by the state before it. -/
def StepMeets (itemarrayPrev : ItemarrayPrev) (nu : Nat) (st : State) : CounterOp → Prop
  | .alloc lvl mt order _ => AllocMeets itemarrayPrev st nu lvl order mt
  | .free mt item => MergesOwn st nu mt item

/-- The conditions can be evaluated on a state. -/
instance {itemarrayPrev : ItemarrayPrev} {st : State} {nu lvl order : Nat} {item : Item} :
    Decidable (NoTable itemarrayPrev st nu lvl order item) :=
  decidable_of_iff (∀ p, removeGroupMigration st (.phy nu lvl) lvl order .movable false = some p →
      p.2 = some item → itemarrayPrev p.1 item = some none)
    ⟨fun h st1 hr => h (st1, some item) hr rfl, fun h p hr hi => h p.1 (by rw [hr, ← hi])⟩

instance {itemarrayPrev : ItemarrayPrev} {st : State} {nu lvl order : Nat} :
    Decidable (UnitServes itemarrayPrev st nu lvl order) :=
  inferInstanceAs (Decidable (∃ oi item, Takes st nu lvl order .movable oi item ∧ _))

instance {itemarrayPrev : ItemarrayPrev} {st : State} {nu lvl order : Nat} {mt : MigrationType} :
    Decidable (AllocMeets itemarrayPrev st nu lvl order mt) :=
  decidable_of_iff (lvl < groupLvlNum ∧ (cachedHead st (.phy nu) mt = none →
      ¬ OwnServes st nu lvl order mt → mt ≠ .reclaimable →
        UnitServes itemarrayPrev (migrateStart st (.phy nu) mt) nu lvl order))
    ⟨fun h => ⟨h.1, h.2⟩, fun h => ⟨h.level, h.migrated⟩⟩

instance {itemarrayPrev : ItemarrayPrev} {nu : Nat} {st : State} {op : CounterOp} :
    Decidable (StepMeets itemarrayPrev nu st op) :=
  match op with
  | .alloc lvl mt order _ => inferInstanceAs (Decidable (AllocMeets itemarrayPrev st nu lvl order mt))
  | .free mt item => inferInstanceAs (Decidable (MergesOwn st nu mt item))

section Steps

variable {st st' : State} {nu n lvl order fuel : Nat} {held freed : List Item} {mt : MigrationType}
  {item : Item} {s : Searches} {env : StreamEnv} {depth : Nat} {isCombined : Bool}

/-- The mode of the search is the node's own. -/
theorem Region.setStatus (hR : Region st nu held n) {status : GroupStatus}
    (hs : status ≠ .backward) : Stepped st (st.setStatus (.phy nu) status) nu held held n := by
  have hnode : (st.setStatus (.phy nu) status).nodes (.phy nu) =
      { st.nodes (.phy nu) with status := status } := by simp [State.setStatus]
  refine hR.recorded rfl rfl rfl rfl (by rw [hnode]; rfl)
    (fun node hne => by simp [State.setStatus, hne]) ?_
  exact hR.node.congr rfl (by rw [hnode]) (by rw [hnode]) (by rw [hnode]; exact hs)

/-- So is the counter. -/
theorem Region.debited (hR : Region st nu held n) (lvl order : Nat) :
    Stepped st (debited st nu lvl order) nu held held n := by
  have hnode := debited_node st nu lvl order
  refine hR.recorded rfl rfl rfl rfl (by rw [hnode]; rfl) (fun node hne => ?_) ?_
  · rw [TensorAlloc.debited, State.lowerFree, State.setStatus]
    simp [hne]
  · exact hR.node.congr rfl (by rw [hnode]) (by rw [hnode])
      (by rw [hnode]; exact GroupStatus.noConfusion)

/-- **A block from the lists of its class.** -/
theorem Region.takenOwn (hR : Region st nu held n) (hlvl : lvl < groupLvlNum) (hmt : mt ≠ .movable)
    (h : forwardRemoveGroupMigration st lvl mt order (st.nodes (.phy nu)).dim =
      some (st', some item)) : Stepped st st' nu held (item :: held) n := by
  obtain ⟨oi, hT, -⟩ := forwardRemove_takes hR.sound hlvl h
  rcases forwardRemove_cases h with ⟨he, -⟩ | ⟨cur, hcur, hr⟩
  · cases he
  · obtain rfl : nu = cur := Option.some.inj (hR.node.current.symm.trans hcur)
    exact (hR.taken hlvl hT (.inr (if_neg hmt)) hr).2

/-- The MOVABLE lists answer: the block taken is none of a table's. -/
theorem Region.movable_found (hR : Region st nu held n) (hlvl : lvl < groupLvlNum)
    (hM : UnitServes env.itemarrayPrev st nu lvl order) :
    ∃ oi i st1, TakenOff st st1 nu lvl order .movable oi i ∧ HalvesClear st held lvl order .movable oi i ∧
      Stepped st (st1.modItem i fun x => { x with prev := none }) nu held (i :: held) n ∧
      removeGroupMigration st (.phy nu lvl) lvl order .movable false = some (st1, some i) ∧
      forwardSearch (s.withSparse env (fuel + 1)) st (.phy nu) lvl .movable order
        (nestedPara isCombined) = some (st1.modItem i fun x => { x with prev := none }, some i) := by
  obtain ⟨oi, i, hT, hu, hnull⟩ := hM
  obtain ⟨st1, hr⟩ := hT.removes hR.sound hlvl (.inl rfl)
  obtain ⟨⟨m, hm, hlt⟩, hF⟩ := id hT
  have hoi : oi ≤ maxItemOrder := Nat.le_of_lt_succ (Nat.lt_of_lt_of_le hlt (maxOrder_le hR.node hm))
  have hshift : oi = order ∨ splitShift .movable lvl = functionItemLvl groupOrderNumShift lvl := by
    refine hu.imp_right ?_
    rintro rfl
    decide
  obtain ⟨hOff, hst⟩ := hR.taken hlvl hT hshift hr
  -- with NULL for a parent no table is charged
  have henter : enterTable env.itemarrayPrev env.pg st1 i lvl order .movable (st.nodes (.phy nu)).dim
      false = some (st1.modItem i fun x => { x with prev := none }) := by
    unfold enterTable
    rw [hnull st1 hr]
    cases lvl <;> rfl
  have hg : sparseGroup env.pg (st.nodes (.phy nu)).dim false lvl = some (.phy nu lvl) := by
    rw [sparseGroup, hR.node.current]
    rfl
  refine ⟨oi, i, st1, hOff, hR.halvesClear hlvl hoi (searchList_mem hF.found) hshift,
    hst.trans (hst.region.written (.inl (List.mem_cons_self ..)) rfl rfl), hr, ?_⟩
  show forwardRemoveGroupSparse env (fuel + 1) st lvl .movable order (st.nodes (.phy nu)).dim false = _
  rw [forwardRemoveGroupSparse_own hg hr, henter]
  rfl

/-- **A block from the MOVABLE lists**, that reads NULL for the table it is in. -/
theorem Region.takenMovable (hR : Region st nu held n) (hlvl : lvl < groupLvlNum)
    (hM : UnitServes env.itemarrayPrev st nu lvl order)
    (h : forwardSearch (s.withSparse env (fuel + 1)) st (.phy nu) lvl .movable order
      (nestedPara isCombined) = some (st', some item)) :
    Stepped st st' nu held (item :: held) n := by
  obtain ⟨oi, i, st1, -, -, hst, -, hsearch⟩ :=
    @Region.movable_found st nu n lvl order fuel held s env isCombined hR hlvl hM
  rw [hsearch] at h
  cases h
  exact hst

/-- The mode a migration searches in is none of the lists. -/
theorem Region.migrateStart (hR : Region st nu held n) (mt : MigrationType) :
    Stepped st (migrateStart st (.phy nu) mt) nu held held n ∧
      (TensorAlloc.migrateStart st (.phy nu) mt).items = st.items ∧
      (TensorAlloc.migrateStart st (.phy nu) mt).lists = st.lists := by
  unfold TensorAlloc.migrateStart
  split
  · exact ⟨hR.setStatus GroupStatus.noConfusion, rfl, rfl⟩
  · exact ⟨⟨hR, .refl _ _ _, .refl⟩, rfl, rfl⟩

/-- **The ways of a dispatch that answers**: off the cache; or by a search, of the lists of its class or
    of the MOVABLE ones, then the counter and the state. -/
theorem dispatch_ways (hR : Region st nu held n) (hA : AllocMeets env.itemarrayPrev st nu lvl order mt)
    (h : dispatchGroup (s.withSparse env (fuel + 1)) (depth + 2) st (.phy nu) lvl mt order
      (nestedPara isCombined) = some (st', .noError, some item)) :
    (mt = .lrutype ∧ item ∈ st.lists (cacheCell nu) ∧
      ∃ st1, listDel st item = some st1 ∧ st' = st1.countDec (cacheCell nu)) ∨
    ∃ st0 st1 st2 state, (Stepped st st0 nu held held n ∧ st0.items = st.items ∧ st0.lists = st.lists) ∧
      (mt ≠ .movable ∧ forwardRemoveGroupMigration st0 lvl mt order (st0.nodes (.phy nu)).dim =
          some (st1, some item) ∨
        UnitServes env.itemarrayPrev st0 nu lvl order ∧
          forwardSearch (s.withSparse env (fuel + 1)) st0 (.phy nu) lvl .movable order
            (nestedPara isCombined) = some (st1, some item)) ∧
      (st2 = debited st1 nu lvl order ∨ ∃ first, st2 = (debited st1 nu lvl order).setState item first) ∧
      st' = st2.setState item state ∧
      (itemStateToMigration state.number = some .lrutype → mt = .lrutype) := by
  have hnotCached : ∀ (compound : Bool) (t : MigrationType) (c : Bool),
      itemStateToMigration (groupItemState compound t (nestedPara c)).number ≠ some .lrutype := by
    decide
  rcases dispatch_served h fun _ => hR.node.mode with ⟨hc, st1, hd, rfl⟩ | ⟨hc, st1, hs, rfl⟩ |
    ⟨hc, hmt, hs, st1, hs', rfl⟩
  · unfold cachedHead at hc
    split at hc
    · exact .inl ⟨‹_›, List.mem_of_mem_head? hc, st1, hd, rfl⟩
    · cases hc
  · rw [finalDispatch_single]
    refine .inr ⟨st, st1, _, _, ⟨⟨hR, .refl _ _ _, .refl⟩, rfl, rfl⟩, ?_, .inl rfl, rfl,
      fun hl => absurd hl (hnotCached _ _ _)⟩
    by_cases hm : mt = .movable
    · subst hm
      exact .inr ⟨hA.migrated hc (fun ho => ho.1 rfl) (by decide), hs⟩
    · rw [forwardSearch, if_neg hm] at hs
      exact .inl ⟨hm, hs⟩
  · have hne : mt ≠ .sparseMovable ∧ mt ≠ .reclaimable := by rcases hmt with rfl | rfl <;> decide
    have hown : ¬ OwnServes st nu lvl order mt := by
      intro ho
      obtain ⟨st2, i, hr⟩ := (ownServes_iff hR.sound hA.level hne.1).mp ho
      rw [forwardSearch, if_neg hne.1, hr] at hs
      cases hs
    rw [finalDispatch_single]
    refine .inr ⟨_, st1, _, migratedState mt, hR.migrateStart mt,
      .inr ⟨hA.migrated hc hown hne.2, hs'⟩, .inr ⟨_, rfl⟩, rfl, ?_⟩
    rcases hmt with rfl | rfl <;> decide

/-- **Step: an allocation.** -/
theorem alloc_stepped (hR : Region st nu held n) (hA : AllocMeets env.itemarrayPrev st nu lvl order mt)
    (h : dispatchGroup (s.withSparse env (fuel + 1)) (depth + 2) st (.phy nu) lvl mt order
      (nestedPara isCombined) = some (st', .noError, some item)) :
    Stepped st st' nu held (item :: held) n := by
  rcases dispatch_ways hR hA h with ⟨-, hi, st1, hd, rfl⟩ |
    ⟨st0, st1, st2, state, ⟨hstart, -⟩, hs, hst2, rfl, -⟩
  · exact hR.uncached hi hd
  · have htaken : Stepped st0 st1 nu held (item :: held) n := by
      rcases hs with ⟨hm, hs⟩ | ⟨hM, hs⟩
      · exact hstart.region.takenOwn hA.level hm hs
      · exact hstart.region.takenMovable hA.level hM hs
    have hcounted : Stepped st1 st2 nu (item :: held) (item :: held) n := by
      have hdebit := htaken.region.debited lvl order
      rcases hst2 with rfl | ⟨first, rfl⟩
      · exact hdebit
      · exact hdebit.trans (hdebit.region.stated (.inl (List.mem_cons_self ..)) first)
    exact ((hstart.trans htaken).trans hcounted).trans
      (hcounted.region.stated (.inl (List.mem_cons_self ..)) state)

/-- **Step: a free.** -/
theorem free_stepped (hR : Region st nu held n) (hi : item ∈ held) (hM : MergesOwn st nu mt item)
    (h : findGroupReversed .listFirst fuel st mt item false = some (st', freed)) :
    Stepped st st' nu held (held.erase item) n := by
  rcases findGroupReversed_cases (hR.own item (.inl hi)).node (hR.off item hi) h with
    ⟨-, hlru⟩ | ⟨hmt, hq⟩
  · have hc := hR.cached hi
    rcases hlru with rfl | ⟨tmp, st3, freed', hmem, hd, hq⟩
    · exact hc
    · -- the coldest block leaves the cache and is freed in its place
      have hu := hc.region.uncached hmem hd
      have hgiven := hu.region.given (List.mem_cons_self ..) (by decide)
        (fun n hn => absurd rfl (hn n (Nat.le_refl n)).type) hq
      rw [List.erase_cons_head] at hgiven
      exact (hc.trans hu).trans hgiven
  · refine hR.given hi ?_ (hM hmt) hq
    rcases hmt with rfl | rfl <;> decide

/-- **Step.** As written only allocations are made. -/
theorem counterStep_stepped {r : Reading} {freeFuel : Nat} {x x' : State × List Item} {op : CounterOp}
    (hR : Region x.1 nu x.2 n) (hM : StepMeets env.itemarrayPrev nu x.1 op)
    (h : counterStep r (s.withSparse env (fuel + 1)) (depth + 2) freeFuel nu x op = some x') :
    Stepped x.1 x'.1 nu x.2 x'.2 n := by
  cases op with
  | alloc lvl mt order isCombined =>
      unfold counterStep at h
      dsimp only at h
      split at h
      · next hd =>
          obtain rfl := Option.some.inj h
          exact alloc_stepped hR hM hd
      · cases h
  | free mt item =>
      unfold counterStep at h
      dsimp only at h
      split at h
      · next hi =>
          cases r with
          | written =>
              rw [findGroupReversed_written (hR.off item hi)] at h
              cases h
          | listFirst =>
              rw [Option.map_eq_some_iff] at h
              obtain ⟨⟨st', freed⟩, hf, rfl⟩ := h
              exact free_stepped hR hi hM hf
      · cases h

end Steps

/-! ## 3. Runs -/

section Runs

variable (itemarrayPrev : ItemarrayPrev) (r : Reading) (s : Searches) (depth fuel nu : Nat)

/-- Every step of the run meets its condition. -/
def RunMeets : State × List Item → List CounterOp → Prop
  | _, [] => True
  | x, op :: ops => StepMeets itemarrayPrev nu x.1 op ∧
      ∀ x', counterStep r s depth fuel nu x op = some x' → RunMeets x' ops

/-- Steps of several nodes in any order: each names its node, whose own blocks in use it reads. -/
def nodesRun : State × (Nat → List Item) → List (Nat × CounterOp) →
    Option (State × (Nat → List Item))
  | x, [] => some x
  | x, (nu, op) :: ops =>
      (counterStep r s depth fuel nu (x.1, x.2 nu) op).bind fun y =>
        nodesRun (y.1, Function.update x.2 nu y.2) ops

/-- Every step of it is on one of the nodes and meets its condition. -/
def NodesMeet (on : Nat → Prop) : State × (Nat → List Item) → List (Nat × CounterOp) → Prop
  | _, [] => True
  | x, (nu, op) :: ops => on nu ∧ StepMeets itemarrayPrev nu x.1 op ∧
      ∀ y, counterStep r s depth fuel nu (x.1, x.2 nu) op = some y →
        NodesMeet on (y.1, Function.update x.2 nu y.2) ops

instance decidableNodesMeet (on : Nat → Prop) [DecidablePred on] :
    ∀ x ops, Decidable (NodesMeet itemarrayPrev r s depth fuel on x ops)
  | _, [] => isTrue trivial
  | x, (nu, op) :: ops =>
      have := fun x => decidableNodesMeet on x ops
      inferInstanceAs (Decidable (on nu ∧ StepMeets itemarrayPrev nu x.1 op ∧
        ∀ y, counterStep r s depth fuel nu (x.1, x.2 nu) op = some y →
          NodesMeet itemarrayPrev r s depth fuel on (y.1, Function.update x.2 nu y.2) ops))

instance decidableRunMeets : ∀ x ops, Decidable (RunMeets itemarrayPrev r s depth fuel nu x ops)
  | _, [] => isTrue trivial
  | x, op :: ops =>
      have := fun x => decidableRunMeets x ops
      inferInstanceAs (Decidable (StepMeets itemarrayPrev nu x.1 op ∧
        ∀ x', counterStep r s depth fuel nu x op = some x' →
          RunMeets itemarrayPrev r s depth fuel nu x' ops))

end Runs

/-- Nodes whose descriptors are apart, each divided. -/
structure Regions (st : State) (held : Nat → List Item) (n : Nat → Nat) (on : Nat → Prop) : Prop where
  region : ∀ nu, on nu → Region st nu (held nu) (n nu)
  apart : ∀ nu, on nu → ∀ nu', on nu' → nu ≠ nu' → ∀ d < n nu, ∀ d' < n nu',
    st.tables.phyItemStruct nu + d ≠ st.tables.phyItemStruct nu' + d'

section Results

variable {r : Reading} {s : Searches} {env : StreamEnv} {depth fuel freeFuel nu nu' n n' : Nat}
  {st st' : State} {held held' heldr : List Item}

/-- Run. -/
theorem counterRun_stepped {x x' : State × List Item} {ops : List CounterOp}
    (hR : Region x.1 nu x.2 n)
    (hM : RunMeets env.itemarrayPrev r (s.withSparse env (fuel + 1)) (depth + 2) freeFuel nu x ops)
    (h : counterRun r (s.withSparse env (fuel + 1)) (depth + 2) freeFuel nu x ops = some x') :
    Stepped x.1 x'.1 nu x.2 x'.2 n := by
  induction ops generalizing x with
  | nil =>
      obtain rfl := Option.some.inj h
      exact ⟨hR, .refl _ _ _, .refl⟩
  | cons op ops ih =>
      obtain ⟨hstep, hrest⟩ := hM
      rw [counterRun, Option.bind_eq_some_iff] at h
      obtain ⟨x1, h1, h⟩ := h
      have hst := counterStep_stepped hR hstep h1
      exact hst.trans (ih hst.region (hrest x1 h1) h)

/-- **A step on one node leaves a node beside it as it is.** -/
theorem Stepped.beside (h : Stepped st st' nu held held' n) (hR : Region st nu' heldr n') (hne : nu ≠ nu')
    (hap : ∀ d < n, ∀ d' < n', st.tables.phyItemStruct nu + d ≠ st.tables.phyItemStruct nu' + d') :
    Region st' nu' heldr n' ∧ division st' nu' heldr = division st nu' heldr := by
  have hC := h.confined
  have hnode : st'.nodes (.phy nu') = st.nodes (.phy nu') :=
    hC.nodes _ fun e => hne (NodeRef.phy.inj e).symm
  have hlist : ∀ l, NodeList nu' l → ¬ NodeList nu l := fun l hl => nodeList_other (Ne.symm hne) hl
  refine hR.kept h.region.linked ?_ (by rw [hC.tables]) (by rw [hC.tables]; exact ⟨rfl, rfl⟩)
    (fun l hl => ⟨hC.lists l (hlist l hl), congrFun hC.drift l⟩) (fun lvl mt k hk => ?_)
    (fun d' hd' => hC.items _ fun d hd e => hap d hd d' hd' e.symm) fun l hl d' hd' hm => ?_
  · exact hR.node.congr hC.tables (by rw [hnode]) (by rw [hnode])
      (by rw [hnode]; exact hR.node.mode)
  · rw [hC.lists, hR.orders lvl mt k hk]
    rintro (e | ⟨c, -, e⟩)
    · cases e
    · simp only [nodeCell, ListHead.groupCell.injEq, Group.phy.injEq] at e
      exact hne e.1.1.symm
  · -- what is listed there now was before, or is the stepping node's
    by_cases hown : NodeList nu l
    · have hin : ∃ d < n, st.tables.phyItemStruct nu' + d' = st'.tables.phyItemStruct nu + d := by
        rcases hown with rfl | ⟨c, hc, rfl⟩
        · exact h.region.inRange (.inr hm)
        · exact h.region.listed_inRange hc hm
      obtain ⟨d, hd, e⟩ := hin
      rw [hC.tables] at e
      exact hap d hd d' hd' e.symm
    · rw [hC.lists l hown] at hm
      exact hR.inside l hl d' hd' hm

/-- Step of several nodes. -/
theorem Regions.step {held : Nat → List Item} {n : Nat → Nat} {on : Nat → Prop}
    (hR : Regions st held n on) (hnu : on nu) {held' : List Item}
    (h : Stepped st st' nu (held nu) held' (n nu)) :
    Regions st' (Function.update held nu held') n on ∧ ∀ m, on m →
      (division st m (held m)).Reach (division st' m (Function.update held nu held' m)) := by
  have hall : ∀ m, on m → Region st' m (Function.update held nu held' m) (n m) ∧
      (division st m (held m)).Reach (division st' m (Function.update held nu held' m)) := by
    intro m hm
    by_cases he : m = nu
    · subst he
      rw [Function.update_self]
      exact ⟨h.region, h.reach⟩
    · rw [Function.update_of_ne he]
      obtain ⟨hreg, hdiv⟩ := h.beside (hR.region m hm) (Ne.symm he) (hR.apart nu hnu m hm (Ne.symm he))
      exact ⟨hreg, by rw [hdiv]⟩
  refine ⟨⟨fun m hm => (hall m hm).1, ?_⟩, fun m hm => (hall m hm).2⟩
  rw [h.confined.tables]
  exact hR.apart

/-- **Nodes with descriptors of their own, in any order of steps**: each stays divided, and goes through
    divisions of its own. -/
theorem regions_apart (s : Searches) (env : StreamEnv) (depth fuel freeFuel : Nat) (n : Nat → Nat)
    (on : Nat → Prop) :
    ∀ r x x' ops, Regions x.1 x.2 n on →
      NodesMeet env.itemarrayPrev r (s.withSparse env (fuel + 1)) (depth + 2) freeFuel on x ops →
      nodesRun r (s.withSparse env (fuel + 1)) (depth + 2) freeFuel x ops = some x' →
      Regions x'.1 x'.2 n on ∧ ∀ nu, on nu →
        (division x.1 nu (x.2 nu)).Reach (division x'.1 nu (x'.2 nu)) := by
  intro r x x' ops hR hM h
  induction ops generalizing x with
  | nil =>
      obtain rfl := Option.some.inj h
      exact ⟨hR, fun _ _ => .refl⟩
  | cons p ops ih =>
      obtain ⟨nu, op⟩ := p
      obtain ⟨hnu, hstep, hrest⟩ := hM
      rw [nodesRun, Option.bind_eq_some_iff] at h
      obtain ⟨y, hy, h⟩ := h
      have hst := counterStep_stepped (x := (x.1, x.2 nu)) (hR.region nu hnu) hstep hy
      obtain ⟨hR', hreach⟩ := hR.step hnu hst
      obtain ⟨hR'', hreach'⟩ := ih (y.1, Function.update x.2 nu y.2) hR' (hrest y hy) h
      exact ⟨hR'', fun m hm => (hreach m hm).trans (hreach' m hm)⟩

/-- A time node and a memory node, a MOVABLE block of two descriptors each. -/
def twoNodes : State :=
  ((bareNodes 3 fun nu => if nu = 16 then 2 else 0).put 0 (3, .movable, 1) 0).put 16 (3, .movable, 1) 2

theorem twoNodes_regions : Regions twoNodes (fun _ => []) (fun _ => 2) fun nu => nu = 0 ∨ nu = 16 := by
  have hc : ((3 : Nat), MigrationType.movable, (1 : Nat)) ∈ nodeCells := by decide +kernel
  have htime := (bareNodes_region 3 (fun nu => if nu = 16 then 2 else 0) 0 rfl).put hc rfl
    (Nat.dvd_zero _) (fun _ _ => rfl) (by decide)
  have hmemory :
      Region ((bareNodes 3 fun nu => if nu = 16 then 2 else 0).put 0 (3, .movable, 1) 0) 16 [] 0 :=
    (bareNodes_region 3 (fun nu => if nu = 16 then 2 else 0) 16 rfl).put_beside (by decide) hc rfl
      fun d hd => absurd hd (Nat.not_lt_zero d)
  have hunlinked : ∀ i, i ≠ 0 →
      (((bareNodes 3 fun nu => if nu = 16 then 2 else 0).put 0 (3, .movable, 1) 0).items i).onList = none :=
    fun i hi => by rw [State.put_items hi]; rfl
  refine ⟨fun nu hnu => ?_, fun nu hnu nu' hnu' hne => ?_⟩
  · rcases hnu with rfl | rfl
    · exact htime.put_beside (by decide) hc (hunlinked 2 (by decide)) (by decide)
    · exact hmemory.put hc rfl (Nat.dvd_zero _) (fun d _ => hunlinked _ (by
        show 2 + (0 + d) ≠ 0
        omega)) (by decide)
  · rcases hnu with rfl | rfl <;> rcases hnu' with rfl | rfl <;>
      first | exact absurd rfl hne | decide

/-- The block of the time node is cut in two halves that come back and are joined on the UNMOVABLE list;
    in between the one of the memory node is cut, and half of it comes back. -/
theorem twoNodes_apart : ∃ x', nodesRun .listFirst (noSearch.withSparse streamEnv 1) 2 1
      (twoNodes, fun _ => [])
      [(0, .alloc 3 .unmovable 0 false), (16, .alloc 3 .unmovable 0 false),
        (0, .alloc 3 .unmovable 0 false), (0, .free .unmovable 0), (16, .free .unmovable 2),
        (0, .free .unmovable 1)] = some x' ∧
    x'.1.lists (nodeCell 0 (3, .unmovable, 1)) = [0] ∧ x'.1.lists (nodeCell 16 (3, .unmovable, 0)) = [2] ∧
    Regions x'.1 x'.2 (fun _ => 2) (fun nu => nu = 0 ∨ nu = 16) ∧ ∀ nu, nu = 0 ∨ nu = 16 →
      (division twoNodes nu []).Reach (division x'.1 nu (x'.2 nu)) := by
  have hrun : (nodesRun .listFirst (noSearch.withSparse streamEnv 1) 2 1 (twoNodes, fun _ => [])
      [(0, .alloc 3 .unmovable 0 false), (16, .alloc 3 .unmovable 0 false),
        (0, .alloc 3 .unmovable 0 false), (0, .free .unmovable 0), (16, .free .unmovable 2),
        (0, .free .unmovable 1)]).map (fun x => (x.1.lists (nodeCell 0 (3, .unmovable, 1)),
          x.1.lists (nodeCell 16 (3, .unmovable, 0)))) = some ([0], [2]) := by
    decide +kernel
  obtain ⟨x', hrun, hlists⟩ := Option.map_eq_some_iff.mp hrun
  have hM : NodesMeet streamEnv.itemarrayPrev .listFirst (noSearch.withSparse streamEnv 1) 2 1
      (fun nu => nu = 0 ∨ nu = 16) (twoNodes, fun _ => [])
      [(0, .alloc 3 .unmovable 0 false), (16, .alloc 3 .unmovable 0 false),
        (0, .alloc 3 .unmovable 0 false), (0, .free .unmovable 0), (16, .free .unmovable 2),
        (0, .free .unmovable 1)] := by
    decide +kernel
  exact ⟨x', hrun, congrArg Prod.fst hlists, congrArg Prod.snd hlists,
    regions_apart noSearch streamEnv 0 0 1 (fun _ => 2) (fun nu => nu = 0 ∨ nu = 16) .listFirst
      (twoNodes, fun _ => []) x' _ twoNodes_regions hM hrun⟩

end Results

end TensorAlloc
