/-
  File:      TensorAlloc/RegionRow.lean
  Subject:   Blocks put on a list, and the node they are put on.

  * `Region.grown` -- blocks that make up the descriptors behind the node's own: it has so many more;
  * `Region.beside_row` -- a node beside it stays as it is;
  * `bareNodes`, `State.put` -- nodes built block by block, for the runs on given states.
-/
import TensorAlloc.Region

namespace TensorAlloc

open DyadicBlocks

/-! ## 1. A row more on a list -/

section Row

variable {st st' : State} {nu nu' n n' k : Nat} {held : List Item} {row : List Item}
  {c : Nat × MigrationType × Nat}

/-- The lists of two nodes are different ones. -/
theorem nodeList_other (hne : nu ≠ nu') {h : ListHead} (hh : NodeList nu h) : ¬ NodeList nu' h := by
  rcases hh with rfl | ⟨c, -, rfl⟩ <;> rintro (e | ⟨c', -, e⟩) <;>
    simp_all [nodeCell]

/-- The row, read as blocks. -/
theorem freeBlocks_row (hc : c ∈ nodeCells)
    (hfirst : st'.tables.phyItemStruct nu = st.tables.phyItemStruct nu)
    (hl : ∀ h, st'.lists h = st.lists h ++ if h = nodeCell nu c then row else []) :
    freeBlocks st' nu = (row : Multiset Item).map (blockAt (st.tables.phyItemStruct nu) c.1 c.2.2) +
      freeBlocks st nu := by
  have hcells : ∀ c', (st'.lists (nodeCell nu c') : Multiset Item) =
      (st.lists (nodeCell nu c') : Multiset Item) +
        ((if c' = c then row else [] : List Item) : Multiset Item) := by
    intro c'
    have hcell := hl (nodeCell nu c')
    by_cases he : c' = c
    · rw [if_pos (by rw [he])] at hcell
      rw [if_pos he, hcell, Multiset.coe_add]
    · rw [if_neg fun e => he (nodeCell_injective nu e), List.append_nil] at hcell
      rw [if_neg he, hcell]
      exact (add_zero _).symm
  unfold freeBlocks
  rw [hfirst, add_comm (Multiset.map _ _)]
  rw [Finset.sum_congr rfl fun c' _ => by rw [hcells c', Multiset.map_add], Finset.sum_add_distrib]
  congr 1
  rw [Finset.sum_eq_single_of_mem c hc]
  · rw [if_pos rfl]
  · intro c' _ hne
    rw [if_neg hne]
    rfl

/-- **A node with the row is divided as before, its new descriptors free**: `new`, the row's blocks, make
    them up. -/
theorem Region.grown {new : Multiset Block} (hR : Region st nu held n) (hL : st'.Linked)
    (hN : ServedNode st' nu) (hfirst : st'.tables.phyItemStruct nu = st.tables.phyItemStruct nu)
    (htop : st'.tables.phyGroupLvl nu = st.tables.phyGroupLvl nu ∧
      st'.tables.phyGroupOrder nu = st.tables.phyGroupOrder nu) (hc : c ∈ nodeCells)
    (hl : ∀ h, st'.lists h = st.lists h ++ if h = nodeCell nu c then row else [])
    (hdrift : st'.drift = st.drift) (hitems : ∀ i, i ∉ row → st'.items i = st.items i)
    (hrow : ∀ i ∈ row, ∃ d < 2 ^ k, i = st.tables.phyItemStruct nu + (n + d))
    (hfresh : ∀ d < 2 ^ k, (st.items (st.tables.phyItemStruct nu + (n + d))).onList = none)
    (hnew : (row : Multiset Item).map (blockAt (st.tables.phyItemStruct nu) c.1 c.2.2) = new)
    (htiles : Tiles new ⟨n, k⟩) (haligned : ∀ b ∈ new, b.Aligned) (hsmall : n + 2 ^ k + 1 < 2 ^ 31) :
    Region st' nu held (n + 2 ^ k) := by
  have hfree := freeBlocks_row hc hfirst hl
  rw [hnew] at hfree
  have hcache : st'.lists (cacheCell nu) = st.lists (cacheCell nu) := by
    rw [hl, if_neg (by simp [cacheCell, nodeCell]), List.append_nil]
  -- a descriptor in use is none of the row's
  have huse : ∀ i, i ∈ held ∨ i ∈ st.lists (cacheCell nu) → st'.items i = st.items i := by
    intro i hi
    obtain ⟨d, hd, rfl⟩ := hR.inRange hi
    refine hitems _ fun hm => ?_
    obtain ⟨d', -, e⟩ := hrow _ hm
    have := Nat.add_left_cancel e
    omega
  have hlive := liveBlocks_kept hfirst hcache huse
  refine {
    linked := hL
    node := hN
    nodup := hR.nodup
    off := fun i hi => by rw [huse i (.inl hi)]; exact hR.off i hi
    own := fun i hi => ?_
    based := fun i hi => ?_
    counted := fun c hc => by rw [hdrift]; exact hR.counted c hc
    inside := fun h hh d hd hm => ?_
    orders := fun lvl t j hj => ?_
    aligned := fun b hb => ?_
    whole := fun d => ?_
    small := hsmall }
  · rw [hcache] at hi
    exact (hR.own i hi).kept htop (by rw [huse i hi])
  · rw [hfirst]
    rcases hi with hi | ⟨h, hh, hi⟩
    · exact hR.based i (.inl hi)
    · rw [hl] at hi
      rcases List.mem_append.mp hi with hi | hi
      · exact hR.based i (.inr ⟨h, hh, hi⟩)
      · split at hi
        · obtain ⟨d, -, rfl⟩ := hrow i hi
          exact Nat.le_add_right _ _
        · cases hi
  · rw [hfirst, hl, if_neg fun e : h = nodeCell nu c => hh (e ▸ nodeList_cell hc),
      List.append_nil] at hm
    rcases Nat.lt_or_ge d n with hlt | hge
    · exact hR.inside h hh d hlt hm
    · obtain ⟨d', rfl⟩ := Nat.exists_eq_add_of_le hge
      have ho := (hR.linked.mem _ h).mpr hm
      rw [hfresh d' (Nat.lt_of_add_lt_add_left hd)] at ho
      cases ho
  · rw [hl, hR.orders lvl t j hj, List.nil_append, if_neg]
    have hno : ¬ NodeList nu (.groupCell (.phy nu lvl) t j) := not_nodeList_order hj
    exact fun e => hno (e ▸ nodeList_cell hc)
  · rw [hfree, hlive, Multiset.mem_add, Multiset.mem_add] at hb
    rcases hb with (hb | hb) | hb
    · exact haligned b hb
    · exact hR.aligned b (Multiset.mem_add.mpr (.inl hb))
    · exact hR.aligned b (Multiset.mem_add.mpr (.inr hb))
  · show cover (freeBlocks st' nu + liveBlocks st' nu held) d = _
    have hold : cover (freeBlocks st nu + liveBlocks st nu held) d = if d < n then 1 else 0 := hR.whole d
    rw [hfree, hlive, add_assoc, cover_add, hold, htiles d]
    have := Nat.two_pow_pos k
    simp only [mem_mk]
    split <;> split <;> split <;> omega

/-- **A row put on a list of one node leaves a node beside it that is divided.** -/
theorem Region.beside_row (hR : Region st nu' held n') (hne : nu' ≠ nu) (hL : st'.Linked)
    (hN : ServedNode st' nu') (hfirst : st'.tables.phyItemStruct nu' = st.tables.phyItemStruct nu')
    (htop : st'.tables.phyGroupLvl nu' = st.tables.phyGroupLvl nu' ∧
      st'.tables.phyGroupOrder nu' = st.tables.phyGroupOrder nu') (hc : c ∈ nodeCells)
    (hl : ∀ h, st'.lists h = st.lists h ++ if h = nodeCell nu c then row else [])
    (hdrift : st'.drift = st.drift) (hitems : ∀ i, i ∉ row → st'.items i = st.items i)
    (hap : ∀ i ∈ row, ∀ d' < n', i ≠ st.tables.phyItemStruct nu' + d') :
    Region st' nu' held n' ∧ division st' nu' held = division st nu' held := by
  have hother : ∀ h, h ≠ nodeCell nu c → st'.lists h = st.lists h := fun h hh => by
    rw [hl, if_neg hh, List.append_nil]
  refine hR.kept hL hN hfirst htop
    (fun h hh => ⟨hother h fun e => nodeList_other hne hh (e ▸ nodeList_cell hc), congrFun hdrift h⟩)
    (fun lvl t j hj => (hother _ fun e => ?_).trans (hR.orders lvl t j hj))
    (fun d hd => hitems _ fun hi => hap _ hi d hd rfl) fun h hh d hd hm => ?_
  · simp only [nodeCell, ListHead.groupCell.injEq, Group.phy.injEq] at e
    exact hne e.1.1
  · rw [hl] at hm
    rcases List.mem_append.mp hm with hm | hm
    · exact hR.inside h hh d hd hm
    · split at hm
      · exact hap _ hm d hd rfl
      · cases hm

end Row

/-! ## 2. Nodes built block by block -/

/-- Nodes of no descriptors yet, with the top level `top`, the array of `nu` to start at `first nu`: node 0
    serves the time, every other one the memory. -/
def bareNodes (top : Nat) (first : Nat → Item) : State :=
  { zeroed with
    nodes := fun node => { zeroed.nodes node with
      nodeId := match node with
        | .phy nu => nu
        | _ => 0
      dim := if node = .phy 0 then dimTime else dimMemory }
    tables := { zeroed.tables with
      phyItemStruct := first, phyGroupLvl := fun _ => top
      phyGroupOrder := fun _ => maxItemOrder + 1 } }

/-- A block put at the end of a list of the node, and counted. -/
def State.put (st : State) (nu : Nat) (c : Nat × MigrationType × Nat) (i : Item) : State :=
  (st.pushTail (nodeCell nu c) i).countInc (nodeCell nu c)

section Built

variable {st : State} {nu nu' n n' : Nat} {held : List Item} {c : Nat × MigrationType × Nat} {i : Item}

/-- A node without descriptors is divided, if it is one that is served. -/
theorem bareNodes_region (top : Nat) (first : Nat → Item) (nu : Nat)
    (hnu : getCurrentNodeNum (if nu = 0 then dimTime else dimMemory) = some nu) :
    Region (bareNodes top first) nu [] 0 := by
  have hfree : freeBlocks (bareNodes top first) nu = 0 :=
    Finset.sum_eq_zero fun _ _ => rfl
  have hlive : liveBlocks (bareNodes top first) nu [] = 0 := rfl
  exact {
    linked := zeroed_linked.congr rfl fun _ => rfl
    node := ⟨fun _ _ => rfl, rfl, by simpa [bareNodes] using hnu,
      ⟨Nat.le_add_left _ _, Nat.le_refl _⟩, GroupStatus.noConfusion⟩
    nodup := List.nodup_nil
    off := fun _ hi => absurd hi List.not_mem_nil
    own := fun _ hi => absurd (hi.elim id id) List.not_mem_nil
    based := fun _ hi => hi.elim (fun hi => absurd hi List.not_mem_nil)
      fun ⟨_, _, hi⟩ => absurd hi List.not_mem_nil
    counted := fun _ _ => drift_eq_zero.mpr rfl
    inside := fun _ _ d hd => absurd hd (Nat.not_lt_zero d)
    orders := fun _ _ _ _ => rfl
    aligned := fun b hb => by
      rw [hfree, hlive] at hb
      exact absurd hb (Multiset.notMem_zero b)
    whole := fun d => by
      show cover (freeBlocks (bareNodes top first) nu + liveBlocks (bareNodes top first) nu []) d = _
      rw [hfree, hlive]
      rfl
    small := by decide }

theorem State.put_lists (h : ListHead) :
    (st.put nu c i).lists h = st.lists h ++ if h = nodeCell nu c then [i] else [] := by
  unfold State.put
  rw [State.countInc_lists, State.pushTail_lists]
  split
  · next e => rw [e]
  · rw [List.append_nil]

theorem State.put_drift : (st.put nu c i).drift = st.drift := by
  funext h
  by_cases he : h = nodeCell nu c
  · subst he
    exact drift_gain (by rw [State.put_lists, if_pos rfl, List.length_append]; rfl)
      (by simp [State.put])
  · unfold State.drift
    rw [State.put_lists, if_neg he, List.append_nil]
    simp [State.put, he]

theorem State.put_items {j : Item} (hj : j ≠ i) : (st.put nu c i).items j = st.items j := by
  unfold State.put
  rw [State.countInc_items, State.pushTail_items, if_neg hj]

/-- **The next block of a node.** -/
theorem Region.put (hR : Region st nu held n) (hc : c ∈ nodeCells)
    (hi : i = st.tables.phyItemStruct nu + n) (hfits : unitItems c.1 c.2.2 ∣ n)
    (hfresh : ∀ d < unitItems c.1 c.2.2, (st.items (st.tables.phyItemStruct nu + (n + d))).onList = none)
    (hsmall : n + unitItems c.1 c.2.2 + 1 < 2 ^ 31) :
    Region (st.put nu c i) nu held (n + unitItems c.1 c.2.2) := by
  have hself : (st.items i).onList = none := by
    rw [hi]
    exact hfresh 0 (Nat.two_pow_pos _)
  have hblock : (([i] : List Item) : Multiset Item).map (blockAt (st.tables.phyItemStruct nu) c.1 c.2.2) =
      {⟨n, c.2.2 + functionItemLvl groupOrderNumShift c.1⟩} := by
    rw [hi, Multiset.coe_singleton, Multiset.map_singleton, blockAt, Nat.add_sub_cancel_left]
  refine hR.grown ((hR.linked.pushTail hself _).countInc _) (hR.node.congr rfl rfl rfl hR.node.mode) rfl
    ⟨rfl, rfl⟩ hc (fun h => State.put_lists h) State.put_drift (fun j hj => ?_) (fun j hj => ?_) hfresh
    hblock (tiles_self _) (fun b hb => ?_) hsmall
  · exact State.put_items fun e => hj (List.mem_singleton.mpr e)
  · exact ⟨0, Nat.two_pow_pos _, (List.mem_singleton.mp hj).trans hi⟩
  · rw [Multiset.mem_singleton.mp hb]
    exact hfits

/-- It leaves a node beside that one. -/
theorem Region.put_beside (hR : Region st nu' held n') (hne : nu' ≠ nu) (hc : c ∈ nodeCells)
    (hi : (st.items i).onList = none) (hap : ∀ d' < n', i ≠ st.tables.phyItemStruct nu' + d') :
    Region (st.put nu c i) nu' held n' := by
  refine (hR.beside_row hne ((hR.linked.pushTail hi _).countInc _)
    (hR.node.congr rfl rfl rfl hR.node.mode) rfl ⟨rfl, rfl⟩ hc (fun h => State.put_lists h) State.put_drift
    (fun j hj => ?_) fun j hj => ?_).1
  · exact State.put_items fun e => hj (List.mem_singleton.mpr e)
  · rw [List.mem_singleton.mp hj]
    exact hap

end Built

end TensorAlloc
