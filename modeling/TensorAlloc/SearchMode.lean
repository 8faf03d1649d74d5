/-
  File:      TensorAlloc/SearchMode.lean
  Subject:   `attr.status` after a request that fails.

  * `lastSearch` -- what the last search of a failing request leaves, whatever the searches do;
  * `forwardRemove_null` -- when the search of the physical lists ends in NULL, by lists and counts;
  * `allocChain_status` -- that of the MOVABLE lists writes no mode when it does;
  * `failed_status_iff` -- the mode set for the migration of an UNMOVABLE request is not put back.
-/
import TensorAlloc.AllocChain

namespace TensorAlloc

/-! ## 1. What a failing request leaves -/

/-- A failed request leaves the mode it found. -/
def FailKeepsMode (s : Searches) (d : Nat) (st : State) (node : NodeRef) (lvl : Nat)
    (mt : MigrationType) (order : Nat) (para : DispatchPara) : Prop :=
  ∀ st' ret i, dispatchGroup s (d + 2) st node lvl mt order para = some (st', ret, i) →
    ret ≠ .noError → (st'.nodes node).status = (st.nodes node).status

/-- What the last search of a request leaves, where all it tries find nothing. -/
def lastSearch (s : Searches) (st : State) (node : NodeRef) (lvl : Nat) (mt : MigrationType)
    (order : Nat) (para : DispatchPara) : Option State :=
  match cachedHead st node mt, forwardSearch s st node lvl mt order para with
  | none, some (st1, none) =>
      if mt = .lrutype ∨ mt = .unmovable then
        match forwardSearch s (migrateStart st1 node mt) node lvl .movable order
            (nestedPara para.isCombined) with
        | some (st2, none) => some st2
        | _ => none
      else some st1
  | _, _ => none

/-- The MOVABLE search with these parameters writes no mode of the node when it finds nothing. -/
def LeavesMode (s : Searches) (node : NodeRef) (para : DispatchPara) : Prop :=
  ∀ st lvl order st', st.Linked →
    forwardSearch s st node lvl .movable order para = some (st', none) →
      (st'.nodes node).status = (st.nodes node).status

section Mode

variable {s : Searches} {st st' : State} {node : NodeRef} {lvl order d : Nat} {mt : MigrationType}
  {para : DispatchPara} {ret : Status} {i : Option Item}

/-- **A request fails with what its last search leaves.** -/
theorem dispatch_fails (hst : (st.nodes node).status = .idle ∨ (st.nodes node).status = .forward) :
    (∃ ret i, dispatchGroup s (d + 2) st node lvl mt order para = some (st', ret, i) ∧
      ret ≠ .noError) ↔ lastSearch s st node lvl mt order para = some st' := by
  have hb : (st.nodes node).status ≠ .backward := by rcases hst with e | e <;> rw [e] <;> decide
  have hf : (st.nodes node).status ≠ .onlyForward := by rcases hst with e | e <;> rw [e] <;> decide
  unfold lastSearch
  cases hc : cachedHead st node mt with
  | some head =>
      rw [dispatch_cached hc]
      refine iff_of_false (fun h => ?_) (by simp)
      obtain ⟨ret, i, h, hne⟩ := h
      obtain ⟨st1, -, he⟩ := Option.map_eq_some_iff.mp h
      exact hne (Prod.mk.inj (Prod.mk.inj he).2).1.symm
  | none =>
      rw [dispatch_forward hc hb]
      cases hs : forwardSearch s st node lvl mt order para with
      | none =>
          refine iff_of_false (fun h => ?_) (by simp)
          obtain ⟨_, _, h, -⟩ := h
          cases h
      | some r =>
          obtain ⟨st1, item⟩ := r
          cases item with
          | some item =>
              refine iff_of_false (fun h => ?_) (by simp)
              obtain ⟨ret, i, h, hne⟩ := h
              simp only [Option.bind_some, Option.some.injEq, Prod.mk.injEq] at h
              exact hne h.2.1.symm
          | none =>
              simp only [Option.bind_some, if_neg hf]
              by_cases hmt : mt = .lrutype ∨ mt = .unmovable
              · have hst : st1 = st := forwardSearch_none hmt hs
                subst hst
                rw [dispatchGroupMigration_migrates hmt hb, if_pos hmt]
                cases hn : forwardSearch s (migrateStart st1 node mt) node lvl .movable order
                    (nestedPara para.isCombined) with
                | none =>
                    refine iff_of_false (fun h => ?_) (by simp)
                    obtain ⟨_, _, h, -⟩ := h
                    cases h
                | some r =>
                    obtain ⟨st2, item⟩ := r
                    cases item with
                    | some item =>
                        refine iff_of_false (fun h => ?_) (by simp)
                        obtain ⟨ret, i, h, hne⟩ := h
                        simp only [Option.map_some, Option.some.injEq, Prod.mk.injEq] at h
                        exact hne h.2.1.symm
                    | none =>
                        simp only [Option.map_some, Option.some.injEq, Prod.mk.injEq]
                        constructor
                        · rintro ⟨_, _, h, -⟩
                          exact h.1
                        · intro h
                          refine ⟨_, _, ⟨h, rfl, rfl⟩, ?_⟩
                          split <;> decide
              · have hmt' : mt = .reclaimable ∨ mt = .sparseMovable := by
                  cases mt <;> simp_all
                simp only [dispatchGroupMigration, if_pos hmt', if_neg hmt, Option.some.injEq,
                  Prod.mk.injEq]
                constructor
                · rintro ⟨_, _, h, -⟩
                  exact h.1
                · exact fun h => ⟨_, _, ⟨h, rfl, rfl⟩, by decide⟩

/-- What is left is the mode of the request, or the one set for the migration of an UNMOVABLE one. -/
theorem lastSearch_status (hL : st.Linked) (hown : LeavesMode s node para)
    (hnested : LeavesMode s node (nestedPara para.isCombined))
    (h : lastSearch s st node lvl mt order para = some st') :
    (st'.nodes node).status = if mt = .unmovable then .onlyForward else (st.nodes node).status := by
  unfold lastSearch at h
  split at h
  · next st1 _ hs =>
      by_cases hmt : mt = .lrutype ∨ mt = .unmovable
      · obtain rfl : st1 = st := forwardSearch_none hmt hs
        rw [if_pos hmt] at h
        split at h
        · next hn =>
            obtain rfl := Option.some.inj h
            have hL1 : (migrateStart st1 node mt).Linked := by
              unfold migrateStart
              split
              · exact hL.congr rfl fun _ => rfl
              · exact hL
            rw [hnested _ _ _ _ hL1 hn, migrateStart]
            split
            · exact setStatus_status _ _ _
            · rfl
        · cases h
      · rw [if_neg hmt] at h
        obtain rfl := Option.some.inj h
        rw [if_neg fun e => hmt (.inr e)]
        by_cases hm : mt = .movable
        · subst hm
          exact hown _ _ _ _ hL hs
        · rw [forwardSearch, if_neg hm] at hs
          rw [forwardRemove_none hs]
  · cases h

/-- **With searches that write no mode only an UNMOVABLE request can leave one.** -/
theorem failKeepsMode_iff (hst : (st.nodes node).status = .idle ∨ (st.nodes node).status = .forward)
    (hL : st.Linked) (hown : LeavesMode s node para)
    (hnested : LeavesMode s node (nestedPara para.isCombined)) :
    FailKeepsMode s d st node lvl mt order para ↔
      ¬ (mt = .unmovable ∧ (lastSearch s st node lvl mt order para).isSome = true) := by
  constructor
  · intro h hu
    obtain ⟨st', hl⟩ := Option.isSome_iff_exists.mp hu.2
    obtain ⟨ret, i, hrun, hne⟩ := (dispatch_fails (d := d) hst).mpr hl
    have hkeep := h st' ret i hrun hne
    rw [lastSearch_status hL hown hnested hl, if_pos hu.1] at hkeep
    rcases hst with e | e <;> rw [e] at hkeep <;> cases hkeep
  · intro h st' ret i hrun hne
    have hl := (dispatch_fails (d := d) hst).mp ⟨ret, i, hrun, hne⟩
    rw [lastSearch_status hL hown hnested hl, if_neg fun e => h ⟨e, by rw [hl]; rfl⟩]

end Mode

/-! ## 2. The search of the physical lists -/

/-- The block the search looks at on the level's lists, where it finds one, is at no multiple of the
    unit: nothing leaves them. -/
def LevelBarren (st : State) (cur lvl order : Nat) (mt : MigrationType) : Prop :=
  ∃ m, maxOrderOf st (st.nodeOf (.phy cur lvl)).dim lvl mt = some m ∧
    ∀ oi item, searchOrders st (.phy cur lvl) mt false (m - order) order = some (oi, item) →
      itemToIdx st item % 2 ^ functionItemLvl groupOrderNumShift lvl ≠ 0

/-- The counts have nothing from the level asked for up to the top level. -/
def CountsBarren (st : State) (cur lvl order : Nat) (mt : MigrationType) : Prop :=
  0 ≤ st.tables.phyGroupLvl cur ∧ groupBudget st (.phy cur lvl) lvl mt order maxItemOrder = 0 ∧
    ∀ l < lvl, st.tables.phyGroupLvl cur ≤ l → groupBudget st (.phy cur l) l mt 0 maxItemOrder = 0

/-- The physical lists give nothing: the level is above the top one, it has a count and nothing to
    take, or no level has a count. -/
def OwnBarren (st : State) (cur lvl order : Nat) (mt : MigrationType) : Prop :=
  (lvl : Int) < st.tables.phyGroupLvl cur ∨ CountsBarren st cur lvl order mt ∨
    st.tables.phyGroupLvl cur ≤ lvl ∧ groupBudget st (.phy cur lvl) lvl mt order maxItemOrder ≠ 0 ∧
      LevelBarren st cur lvl order mt

section Physical

variable {st st' : State} {lvl order dim cur : Nat} {mt : MigrationType}

theorem remove_physical_none (hmt : mt ≠ .movable) :
    removeGroupMigration st (.phy cur lvl) lvl order mt false = some (st', none) ↔
      st' = st ∧ LevelBarren st cur lvl order mt := by
  unfold removeGroupMigration LevelBarren
  cases hm : maxOrderOf st (st.nodeOf (.phy cur lvl)).dim lvl mt with
  | none => simp
  | some m =>
      rw [Option.bind_eq_bind, Option.bind_some]
      cases hs : searchOrders st (.phy cur lvl) mt false (m - order) order with
      | none =>
          refine ⟨fun h => ⟨(Prod.mk.inj (Option.some.inj h)).1.symm, m, rfl, fun _ _ hf => ?_⟩,
            fun h => by rw [h.1]; rfl⟩
          rw [hs] at hf
          cases hf
      | some found =>
          obtain ⟨oi, item⟩ := found
          dsimp only
          by_cases ha : itemToIdx st item % 2 ^ functionItemLvl groupOrderNumShift lvl ≠ 0
          · rw [if_pos ⟨hmt, ha⟩]
            refine ⟨fun h => ⟨(Prod.mk.inj (Option.some.inj h)).1.symm, m, rfl, fun _ _ hf => ?_⟩,
              fun h => by rw [h.1]; rfl⟩
            rw [hs, Option.some.injEq, Prod.mk.injEq] at hf
            rwa [← hf.2]
          · rw [if_neg fun h => ha h.2]
            refine ⟨fun h => ?_, fun h => ?_⟩
            · obtain ⟨st1, -, h⟩ := Option.bind_eq_some_iff.mp h
              cases h
            · obtain ⟨-, m', hm', hb⟩ := h
              obtain rfl := Option.some.inj hm'
              exact absurd (hb oi item hs) ha

/-- The way up passes the top level where no count is met. -/
theorem forwardGroupBudget_below :
    (∃ last, forwardGroupBudget st cur mt lvl order = some last ∧ last < st.tables.phyGroupLvl cur) ↔
      (lvl : Int) < st.tables.phyGroupLvl cur ∨ CountsBarren st cur lvl order mt := by
  unfold CountsBarren
  induction lvl generalizing order with
  | zero =>
      rw [forwardGroupBudget]
      by_cases htop : (0 : Int) < st.tables.phyGroupLvl cur
      · rw [if_pos htop]
        exact iff_of_true ⟨0, rfl, htop⟩ (.inl htop)
      · rw [if_neg htop]
        by_cases hb : groupBudget st (.phy cur 0) 0 mt order maxItemOrder = 0
        · rw [if_neg (not_not.mpr hb)]
          constructor
          · rintro ⟨last, h, -⟩
            split at h
            · exact .inr ⟨by omega, hb, fun l hl => absurd hl (Nat.not_lt_zero l)⟩
            · cases h
          · rintro (h | h)
            · exact absurd h htop
            · have hneg : (-1 : Int) < st.tables.phyGroupLvl cur := by have := h.1; omega
              exact ⟨-1, if_pos hneg, hneg⟩
        · rw [if_pos hb]
          refine iff_of_false ?_ fun h => h.elim htop fun h => hb h.2.1
          rintro ⟨last, h, hlt⟩
          obtain rfl := Option.some.inj h
          exact htop hlt
  | succ n ih =>
      rw [forwardGroupBudget]
      by_cases htop : ((n + 1 : Nat) : Int) < st.tables.phyGroupLvl cur
      · rw [if_pos htop]
        exact iff_of_true ⟨_, rfl, htop⟩ (.inl htop)
      · rw [if_neg htop]
        by_cases hb : groupBudget st (.phy cur (n + 1)) (n + 1) mt order maxItemOrder = 0
        · rw [if_neg (not_not.mpr hb), ih]
          constructor
          · rintro (h | ⟨h0, h1, h2⟩)
            · exact .inr ⟨by omega, hb, fun l hl htl => by omega⟩
            · refine .inr ⟨h0, hb, fun l hl htl => ?_⟩
              rcases Nat.eq_or_lt_of_le (Nat.le_of_lt_succ hl) with rfl | hlt
              · exact h1
              · exact h2 l hlt htl
          · rintro (h | ⟨h0, -, h2⟩)
            · exact absurd h htop
            · by_cases hn : (n : Int) < st.tables.phyGroupLvl cur
              · exact .inl hn
              · exact .inr ⟨h0, h2 n (Nat.lt_succ_self n) (Int.not_lt.mp hn), fun l hl =>
                  h2 l (Nat.lt_succ_of_lt hl)⟩
        · rw [if_pos hb]
          refine iff_of_false ?_ fun h => h.elim htop fun h => hb h.2.1
          rintro ⟨last, h, hlt⟩
          obtain rfl := Option.some.inj h
          exact htop hlt

/-- **When the search of the physical lists ends in NULL.** -/
theorem forwardRemove_null (hmt : mt ≠ .movable) :
    forwardRemoveGroupMigration st lvl mt order dim = some (st', none) ↔
      st' = st ∧ ∃ cur, getCurrentNodeNum dim = some cur ∧ OwnBarren st cur lvl order mt := by
  unfold forwardRemoveGroupMigration OwnBarren
  cases hcur : getCurrentNodeNum dim with
  | none => simp
  | some cur =>
      simp only [Option.bind_eq_bind, Option.bind_some, Option.some.injEq, exists_eq_left']
      constructor
      · intro h
        obtain ⟨last, hlast, h⟩ := Option.bind_eq_some_iff.mp h
        split at h
        · next hlt =>
            refine ⟨(Prod.mk.inj (Option.some.inj h)).1.symm, ?_⟩
            rcases forwardGroupBudget_below.mp ⟨last, hlast, hlt⟩ with h | h
            · exact .inl h
            · exact .inr (.inl h)
        · next hle =>
            obtain ⟨st1, hborrow, hr⟩ := Option.bind_eq_some_iff.mp h
            cases hn : lvl - last.toNat with
            | succ n =>
                rw [hn, borrowLevels_faults] at hborrow
                cases hborrow
            | zero =>
                rw [hn, borrowLevels, Option.some.injEq] at hborrow
                subst hborrow
                have hle' := Int.not_lt.mp hle
                have htop := Int.le_trans hle' (forwardGroupBudget_le hlast)
                obtain ⟨rfl, hb⟩ := (remove_physical_none hmt).mp hr
                exact ⟨rfl, .inr (.inr ⟨htop,
                  (forwardGroupBudget_own htop).mp ⟨last, hlast, hle', hn⟩, hb⟩)⟩
      · rintro ⟨rfl, h⟩
        have hbelow : ((lvl : Int) < st'.tables.phyGroupLvl cur ∨ CountsBarren st' cur lvl order mt) →
            ((forwardGroupBudget st' cur mt lvl order).bind fun last =>
              if last < st'.tables.phyGroupLvl cur then some (st', none)
              else (borrowLevels cur mt (lvl - last.toNat) last.toNat st').bind fun st =>
                removeGroupMigration st (.phy cur lvl) lvl order mt false) = some (st', none) := by
          intro h
          obtain ⟨last, hlast, hlt⟩ := forwardGroupBudget_below.mpr h
          rw [hlast, Option.bind_some, if_pos hlt]
        rcases h with h | h | ⟨htop, hb, hlevel⟩
        · exact hbelow (.inl h)
        · exact hbelow (.inr h)
        · obtain ⟨last, hlast, hle, hz⟩ := (forwardGroupBudget_own htop).mpr hb
          rw [hlast, Option.bind_some, if_neg (Int.not_lt.mpr hle), hz, borrowLevels, Option.bind_some]
          exact (remove_physical_none hmt).mpr ⟨rfl, hlevel⟩

end Physical

/-! ## 3. The search of the MOVABLE lists -/

section Chain

variable {env : ChainEnv} {st st' : State} {lvl dim order depth : Nat} {node : NodeRef}

/-- **A search that ends in NULL writes no mode**, with all the page requests it makes. -/
theorem allocChain_status {isVirtual : Bool} (hL : st.Linked)
    (h : allocChain env depth st lvl .movable order dim isVirtual = some (st', none)) :
    (st'.nodes node).status = (st.nodes node).status := by
  induction depth generalizing st st' lvl order dim isVirtual with
  | zero => cases h
  | succ depth ih =>
      rcases allocChain_cases h with ⟨st1, i, hi, -⟩ | ⟨st1, group, hs, -, hend⟩
      · cases hi
      · obtain rfl := searchLevels_none hs
        rcases hend with ⟨-, -, ⟨-, rfl⟩ | ⟨dim', hdeep⟩⟩ | ⟨hp, st2, root, hroot, hself⟩
        · rfl
        · exact ih hL hdeep
        · obtain ⟨hR, -⟩ := arrayRoot_rooted hL hp hroot
          exact (ih hR.linked hself).trans (hR.nodes node).1

end Chain

/-! ## 4. Exactly when -/

section Results

variable {st : State} {node : NodeRef} {lvl order d : Nat} {mt : MigrationType}

/-- With the code's own MOVABLE search a nested request writes no mode when it finds nothing. -/
theorem allocChain_leavesMode (s : Searches) (env : ChainEnv) (depth : Nat) (node : NodeRef)
    (isCombined : Bool) :
    LeavesMode { s with sparse := allocChain env depth } node (nestedPara isCombined) :=
  fun _ _ _ _ hL h => allocChain_status hL h

/-- The memory node refuses under the mode set for a migration exactly when it did before. -/
theorem refuses_setStatus (hst : (st.nodes node).status ≠ .backward) :
    Refuses (st.setStatus node .onlyForward) ↔ Refuses st := by
  have hcur : ∀ n, ((st.setStatus node .onlyForward).nodes n).dim = (st.nodes n).dim ∧
      (((st.setStatus node .onlyForward).nodes n).status = .backward ↔ (st.nodes n).status = .backward) := by
    intro n
    by_cases hn : n = node
    · subst hn
      rw [setStatus_status]
      exact ⟨by simp [State.setStatus], iff_of_false GroupStatus.noConfusion hst⟩
    · unfold State.setStatus
      dsimp only
      rw [Function.update_of_ne hn]
      exact ⟨rfl, Iff.rfl⟩
  unfold Refuses
  simp only [hcur]

/-- An UNMOVABLE request fails where the physical lists give nothing and the MOVABLE search, under the
    mode set for it, ends in NULL. -/
theorem lastSearch_unmovable (s : Searches) (sparse : SparseSearch) (isCombined : Bool) :
    (lastSearch { s with sparse := sparse } st node lvl .unmovable order
        (nestedPara isCombined)).isSome = true ↔
      (∃ cur, getCurrentNodeNum (st.nodes node).dim = some cur ∧ OwnBarren st cur lvl order .unmovable) ∧
        ∃ st', sparse (st.setStatus node .onlyForward) lvl .movable order (st.nodes node).dim false =
          some (st', none) := by
  have hdim : ((st.setStatus node .onlyForward).nodes node).dim = (st.nodes node).dim := by
    simp [State.setStatus]
  have hown : forwardSearch { s with sparse := sparse } st node lvl .unmovable order
      (nestedPara isCombined) =
        forwardRemoveGroupMigration st lvl .unmovable order (st.nodes node).dim := rfl
  have hnested : forwardSearch { s with sparse := sparse } (migrateStart st node .unmovable) node lvl
      .movable order (nestedPara isCombined) =
        sparse (st.setStatus node .onlyForward) lvl .movable order (st.nodes node).dim false := by
    rw [← hdim]
    rfl
  have hnull : forwardRemoveGroupMigration st lvl .unmovable order (st.nodes node).dim = some (st, none) ↔
      ∃ cur, getCurrentNodeNum (st.nodes node).dim = some cur ∧ OwnBarren st cur lvl order .unmovable :=
    (forwardRemove_null (by decide)).trans (and_iff_right rfl)
  have hc : cachedHead st node .unmovable = none := rfl
  rw [← hnull, lastSearch, hc, hown]
  cases hs : forwardRemoveGroupMigration st lvl .unmovable order (st.nodes node).dim with
  | none => simp
  | some q =>
      obtain ⟨st1, item⟩ := q
      cases item with
      | some item => simp
      | none =>
          obtain rfl := forwardRemove_none hs
          have hcombined : (nestedPara isCombined).isCombined = isCombined := rfl
          dsimp only
          rw [if_pos (.inr rfl), hcombined, hnested, and_iff_right rfl]
          cases hn : sparse (st1.setStatus node .onlyForward) lvl .movable order (st1.nodes node).dim
              false with
          | none => simp
          | some q =>
              obtain ⟨st2, item⟩ := q
              cases item <;> simp

/-- **When a failed request leaves the search mode as it was.** The mode an UNMOVABLE request sets for
    its migration is not put back. So with searches that write no mode, the others keep it and an
    UNMOVABLE one does unless both its searches find nothing; with the code's own searches that is where
    the physical lists give nothing, the MOVABLE lists are barren and no array comes from the memory
    node. -/
theorem failed_status_iff (hL : st.Linked)
    (hst : (st.nodes node).status = .idle ∨ (st.nodes node).status = .forward) :
    (∀ s para, LeavesMode s node para → LeavesMode s node (nestedPara para.isCombined) →
      (FailKeepsMode s d st node lvl mt order para ↔
        ¬ (mt = .unmovable ∧ (lastSearch s st node lvl mt order para).isSome = true))) ∧
    ∀ (s : Searches) (env : ChainEnv) (isCombined : Bool),
      (∀ depth, FailKeepsMode { s with sparse := allocChain env depth } d st node lvl mt order
        (nestedPara isCombined)) ↔
      ¬ (mt = .unmovable ∧ ∃ cur, getCurrentNodeNum (st.nodes node).dim = some cur ∧
        OwnBarren st cur lvl order .unmovable ∧ Barren st cur lvl order ∧ Refuses st ∧
        RunsDry env (.phy cur 0) (st.setStatus node .onlyForward)) := by
  refine ⟨fun s para hown hnested => failKeepsMode_iff hst hL hown hnested, fun s env isCombined => ?_⟩
  have hb : (st.nodes node).status ≠ .backward := by rcases hst with e | e <;> rw [e] <;> decide
  have hL1 : (st.setStatus node .onlyForward).Linked := hL.congr rfl fun _ => rfl
  have hdim : ((st.setStatus node .onlyForward).nodes node).dim = (st.nodes node).dim := by
    simp [State.setStatus]
  have hkeep : ∀ depth, FailKeepsMode { s with sparse := allocChain env depth } d st node lvl mt order
      (nestedPara isCombined) ↔ ¬ (mt = .unmovable ∧ (lastSearch { s with sparse := allocChain env depth }
        st node lvl mt order (nestedPara isCombined)).isSome = true) := fun depth =>
    failKeepsMode_iff hst hL (allocChain_leavesMode s env depth node isCombined)
      (allocChain_leavesMode s env depth node isCombined)
  simp only [hkeep, ← not_exists, exists_and_left]
  refine not_congr (and_congr_right fun hmt => ?_)
  subst hmt
  rw [exists_congr fun depth => lastSearch_unmovable s (allocChain env depth) isCombined]
  constructor
  · rintro ⟨depth, ⟨cur, hcur, hown⟩, st', h⟩
    obtain ⟨hB, href, hdry⟩ := (allocChain_null_iff hcur hL1).mp ⟨depth, st', h⟩
    exact ⟨cur, hcur, hown, hB, (refuses_setStatus hb).mp href, hdry⟩
  · rintro ⟨cur, hcur, hown, hB, href, hdry⟩
    obtain ⟨depth, st', h⟩ := (allocChain_null_iff hcur hL1).mpr ⟨hB, (refuses_setStatus hb).mpr href, hdry⟩
    exact ⟨depth, ⟨cur, hcur, hown⟩, st', h⟩

end Results

/-- Empty lists, no slab page, the memory node lending: a LRUTYPE request of the time node fails and keeps
    its mode. -/
theorem noBlocks_mode_kept :
    (∃ st', dispatchGroup { noSearch with sparse := allocChain emptySlab 1 } 2 (noBlocks .backward) (.phy 0)
      3 .lrutype 0 (nestedPara false) = some (st', .errInvalidArgs, none)) ∧
    ∀ depth, FailKeepsMode { noSearch with sparse := allocChain emptySlab depth } 0 (noBlocks .backward)
      (.phy 0) 3 .lrutype 0 (nestedPara false) := by
  have h : (dispatchGroup { noSearch with sparse := allocChain emptySlab 1 } 2 (noBlocks .backward) (.phy 0)
      3 .lrutype 0 (nestedPara false)).map Prod.snd = some (.errInvalidArgs, none) := by
    decide +kernel
  obtain ⟨⟨st', r⟩, hrun, he⟩ := Option.map_eq_some_iff.mp h
  obtain rfl : r = _ := he
  exact ⟨⟨st', hrun⟩, ((failed_status_iff (noBlocks_linked .backward) (.inl rfl)).2 noSearch emptySlab
    false).mpr fun h => by cases h.1⟩

/-- An UNMOVABLE one fails, and every later request of the node may only search forward. -/
theorem noBlocks_mode_stuck : ((noBlocks .backward).nodes (.phy 0)).status = .idle ∧
    (∃ st', dispatchGroup { noSearch with sparse := allocChain emptySlab 1 } 2 (noBlocks .backward) (.phy 0)
        3 .unmovable 0 (nestedPara false) = some (st', .errNoMemory, none) ∧
      (st'.nodes (.phy 0)).status = .onlyForward) ∧
    ¬ FailKeepsMode { noSearch with sparse := allocChain emptySlab 1 } 0 (noBlocks .backward) (.phy 0) 3
      .unmovable 0 (nestedPara false) := by
  have h : (dispatchGroup { noSearch with sparse := allocChain emptySlab 1 } 2 (noBlocks .backward) (.phy 0)
      3 .unmovable 0 (nestedPara false)).map (fun q => (q.2, (q.1.nodes (.phy 0)).status)) =
        some ((.errNoMemory, none), .onlyForward) := by
    decide +kernel
  obtain ⟨⟨st', r⟩, hrun, he⟩ := Option.map_eq_some_iff.mp h
  obtain ⟨rfl, hmode⟩ := Prod.mk.inj he
  refine ⟨rfl, ⟨st', hrun, hmode⟩, fun hkeep => ?_⟩
  have hkept := hkeep st' _ _ hrun (by decide)
  rw [hmode] at hkept
  cases hkept

end TensorAlloc
