/-
  File:      TensorAlloc/RangeRuns.lean
  Subject:   The node as its users see it: blocks are asked for and given back by address.

  * `nodeStructFree` -- the node and the descriptor of an address, then `decompose`;
  * `nodeStructAlloc_dispatched` -- a request of one block is one dispatch, and the address that of the
    block;
  * `rangeStep_simulated` -- a call by address is a step by descriptor: the address finds the block it
    was handed out for;
  * `ranges_apart` -- in every run the blocks at the addresses handed out lie in the node's window, each
    at a multiple of its size, and share no byte.
-/
import TensorAlloc.DebugLimit
import TensorAlloc.RegionRuns
import TensorAlloc.Windows

namespace TensorAlloc

open DyadicBlocks

/-! ## 1. Calls by address -/

section Calls

variable (r : Reading) (fuel : Nat) (dispatch : DispatchFn) (nu : Nat)

/-- `node_struct_free` of a physical range. The items of a node with a sparse root are searched from the
    root of the process group, which is NULL. -/
def nodeStructFree (transform : Item → Item) (st : State) (rangeBase dim : Nat) :
    Option (State × Status × List Item) :=
  let idx := BitVec.ofNat 64 (rangeToIdx rangeBase)
  match idxToPnode st idx dim with
  | none => some (st, .errInvalidArgs, [])
  | some nu => do
      let item ← if (st.nodes (.phy nu)).sparseItemRoot.isSome then
          idxToItemSparse getCurrentProcessGroup transform st idx dim
        else rangeToItem st rangeBase dim
      decomposeGroup r fuel st item false

/-- A request of the node, or the free of an address. -/
inductive RangeOp where
  | alloc (nitems : Nat) (flags : ItemFunc)
  | free (rangeBase : Nat)
  deriving DecidableEq, Repr

/-- One call, with the addresses handed out and not given back; `none` where it is refused, the address
    is not one of them, or the call does not return. -/
def rangeStep (transform : Item → Item) (freeFuel : Nat) (x : State × List Nat) :
    RangeOp → Option (State × List Nat)
  | .alloc nitems flags =>
      match nodeStructAlloc r fuel dispatch x.1 (.phy nu) nitems flags with
      | some (st, .noError, some rangeBase) => some (st, rangeBase :: x.2)
      | _ => none
  | .free rangeBase =>
      if rangeBase ∈ x.2 then
        match nodeStructFree r freeFuel transform x.1 rangeBase (x.1.nodes (.phy nu)).dim with
        | some (st, .noError, _) => some (st, x.2.erase rangeBase)
        | _ => none
      else none

def rangeRun (transform : Item → Item) (freeFuel : Nat) :
    State × List Nat → List RangeOp → Option (State × List Nat)
  | x, [] => some x
  | x, op :: ops =>
      (rangeStep r fuel dispatch nu transform freeFuel x op).bind fun x =>
        rangeRun transform freeFuel x ops

end Calls

/-- What a call must meet: a request is for one block, UNMOVABLE or a page of the cache, and what it or
    the free runs into is what `StepMeets` asks of the step by descriptor. -/
def RangeMeets (itemarrayPrev : ItemarrayPrev) (nu : Nat) (st : State) : RangeOp → Prop
  | .alloc nitems flags => ∃ mt, prepareNodeStructAlloc nitems flags = some (mt, nestedPara false) ∧
      mt ≠ .movable ∧ ∀ lvl order, RequestAt st nu nitems lvl order →
        AllocMeets itemarrayPrev st nu lvl order mt
  | .free rangeBase => ∀ item mt, rangeToItem st rangeBase (st.nodes (.phy nu)).dim = some item →
      freeClass st item = some mt → MergesOwn st nu mt item

/-- Every call of the run meets it. -/
def RangesMeet (itemarrayPrev : ItemarrayPrev) (r : Reading) (fuel : Nat) (dispatch : DispatchFn) (nu : Nat)
    (transform : Item → Item) (freeFuel : Nat) : State × List Nat → List RangeOp → Prop
  | _, [] => True
  | x, op :: ops => RangeMeets itemarrayPrev nu x.1 op ∧
      ∀ x', rangeStep r fuel dispatch nu transform freeFuel x op = some x' →
        RangesMeet itemarrayPrev r fuel dispatch nu transform freeFuel x' ops

/-- The levels are four, and no order is as large as the count. -/
theorem requestAt_iff {P : Nat → Nat → Prop} {st : State} {nu nitems : Nat} :
    (∀ lvl order, RequestAt st nu nitems lvl order → P lvl order) ↔
      ∀ lvl < groupLvlNum, ∀ order < nitems, RequestAt st nu nitems lvl order → P lvl order := by
  constructor
  · exact fun h lvl _ order _ hat => h lvl order hat
  · intro h lvl order hat
    refine h lvl hat.below order ?_ hat
    rw [← hat.size]
    exact Nat.lt_of_lt_of_le Nat.lt_two_pow_self
      (Nat.pow_le_pow_right (by decide) (Nat.le_add_right _ _))

instance {itemarrayPrev : ItemarrayPrev} {nu : Nat} {st : State} {op : RangeOp} :
    Decidable (RangeMeets itemarrayPrev nu st op) :=
  match op with
  | .alloc nitems flags => decidable_of_iff
      (∃ mt, prepareNodeStructAlloc nitems flags = some (mt, nestedPara false) ∧ mt ≠ .movable ∧
        ∀ lvl < groupLvlNum, ∀ order < nitems, RequestAt st nu nitems lvl order →
          AllocMeets itemarrayPrev st nu lvl order mt)
      (by simp only [RangeMeets, requestAt_iff])
  | .free rangeBase => decidable_of_iff
      (∀ item, rangeToItem st rangeBase (st.nodes (.phy nu)).dim = some item →
        ∀ mt, freeClass st item = some mt → MergesOwn st nu mt item)
      ⟨fun h item mt hi hm => h item hi mt hm, fun h item hi mt hm => h item mt hi hm⟩

instance decidableRangesMeet (itemarrayPrev : ItemarrayPrev) (r : Reading) (fuel : Nat)
    (dispatch : DispatchFn) (nu : Nat) (transform : Item → Item) (freeFuel : Nat) :
    ∀ x ops, Decidable (RangesMeet itemarrayPrev r fuel dispatch nu transform freeFuel x ops)
  | _, [] => isTrue trivial
  | x, op :: ops =>
      have := fun x => decidableRangesMeet itemarrayPrev r fuel dispatch nu transform freeFuel x ops
      inferInstanceAs (Decidable (RangeMeets itemarrayPrev nu x.1 op ∧
        ∀ x', rangeStep r fuel dispatch nu transform freeFuel x op = some x' →
          RangesMeet itemarrayPrev r fuel dispatch nu transform freeFuel x' ops))

/-- The bytes of the block a descriptor is the first of. -/
def blockBytes (st : State) (i : Item) : Nat := blockSize st i * fixedItemSize

/-- The node `nu`, its window over its `n` descriptors, the blocks `held` handed out under their
    addresses `ranges`. -/
structure Handed (st : State) (nu n : Nat) (held : List Item) (ranges : List Nat) : Prop where
  region : Region st nu held n
  windows : NodeWindows st (st.nodes (.phy nu)).dim
  size : (st.nodes (.phy nu)).size = n * fixedItemSize
  plain : (st.nodes (.phy nu)).sparseItemRoot = none
  ranges : ranges = held.map (itemToRange st)

/-- What the addresses of the blocks `held` are to their users. -/
structure RangesApart (st : State) (nu : Nat) (held : List Item) : Prop where
  found : ∀ i ∈ held, idxToPnode st (BitVec.ofNat 64 (rangeToIdx (itemToRange st i)))
      (st.nodes (.phy nu)).dim = some nu ∧
    rangeToItem st (itemToRange st i) (st.nodes (.phy nu)).dim = some i
  inside : ∀ i ∈ held, (st.nodes (.phy nu)).offset ≤ itemToRange st i ∧
    itemToRange st i + blockBytes st i ≤ (st.nodes (.phy nu)).offset + (st.nodes (.phy nu)).size
  aligned : ∀ i ∈ held, blockBytes st i ∣ itemToRange st i - (st.nodes (.phy nu)).offset
  apart : held.Pairwise fun i j => itemToRange st i + blockBytes st i ≤ itemToRange st j ∨
    itemToRange st j + blockBytes st j ≤ itemToRange st i

/-! ## 2. The addresses of a node's blocks -/

/-- The address of a descriptor of the node. -/
def rangeAt (st : State) (nu : Nat) (i : Item) : Nat :=
  (st.nodes (.phy nu)).offset + (i - st.tables.phyItemStruct nu) * fixedItemSize

section Addresses

variable {st : State} {nu n d : Nat} {held : List Item} {ranges : List Nat} {i j : Item}

/-- The node served is the first of its dimension. -/
theorem ServedNode.first (h : ServedNode st nu) : nu = pnodeAt (st.nodes (.phy nu)).dim 0 := by
  have hcur := h.current
  unfold getCurrentNodeNum at hcur
  unfold pnodeAt
  split at hcur
  · next e =>
      rw [e, ← Option.some.inj hcur]
      rfl
  · split at hcur
    · next e =>
        rw [e, ← Option.some.inj hcur]
        rfl
    · cases hcur

/-- A block in use: its place, and that it ends before the descriptors do. -/
theorem Region.placed (hR : Region st nu held n) (hi : i ∈ held) :
    st.tables.phyItemStruct nu ≤ i ∧ i - st.tables.phyItemStruct nu + blockSize st i ≤ n := by
  have hmem := Multiset.mem_add.mpr (.inr (mem_liveBlocks (.inl hi)) :
    markedBlock st nu i ∈ freeBlocks st nu ∨ markedBlock st nu i ∈ liveBlocks st nu held)
  refine ⟨hR.based i (.inl hi), ?_⟩
  have hlast := hR.whole.lt hmem (last_mem (markedBlock st nu i).start (markedBlock st nu i).log)
  have hpos := Nat.two_pow_pos (markedBlock st nu i).log
  show (markedBlock st nu i).start + 2 ^ (markedBlock st nu i).log ≤ n
  omega

/-- The address of a descriptor of the window, as the code computes it and finds it again. -/
theorem range_of_window (hW : NodeWindows st (st.nodes (.phy nu)).dim) (hN : ServedNode st nu)
    (hsize : (st.nodes (.phy nu)).size = n * fixedItemSize) (hd : d < n)
    (hi : i = st.tables.phyItemStruct nu + d) (hnode : getItemNode (st.items i).flags = nu) :
    itemToRange st i = rangeAt st nu i ∧
      idxToPnode st (BitVec.ofNat 64 (rangeToIdx (rangeAt st nu i))) (st.nodes (.phy nu)).dim = some nu ∧
      rangeToItem st (rangeAt st nu i) (st.nodes (.phy nu)).dim = some i := by
  have hfirst := hN.first
  have hw := hW.noWrap 0 (by decide)
  have hal := (hW.aligned 0 (by decide)).1
  rw [← hfirst] at hw hal
  obtain ⟨off, hoff⟩ := hal
  rw [fixedItemSize_eq] at hoff hsize
  -- the index of the address
  have hrange : rangeAt st nu i = (off + d) * 4096 := by
    unfold rangeAt
    rw [hi, Nat.add_sub_cancel_left, hoff, fixedItemSize_eq]
    omega
  have hidx : rangeToIdx (rangeAt st nu i) = off + d := by
    rw [hrange]
    exact Nat.mul_div_cancel _ (by decide)
  have hbase : rangeToIdx (st.nodes (.phy nu)).offset = off := by
    rw [hoff]
    exact Nat.mul_div_cancel_left _ (by decide)
  have hlt : off + d < 2 ^ 64 := by omega
  have hword : (BitVec.ofNat 64 (off + d)).toNat = off + d := Nat.mod_eq_of_lt hlt
  have hin : InWindow st nu (BitVec.ofNat 64 (off + d)) := by
    rw [inWindow_iff hw, hword, hbase, Nat.mod_eq_of_lt hw]
    refine ⟨Nat.le_add_right _ _, ?_⟩
    unfold rangeToIdx groupOrderNumShift
    omega
  have hscan := @NodeWindows.scan st _ 0 (BitVec.ofNat 64 (off + d)) hW (by decide) (by
    rw [← hfirst]
    exact hin)
  rw [← hfirst, hword, hbase, Nat.add_sub_cancel_left] at hscan
  refine ⟨?_, ?_, ?_⟩
  · have hback : itemToIdx st i = (BitVec.ofNat 64 (off + d)).toInt :=
      itemToIdx_of_window hw hin (by rw [hi, hword, hbase, Nat.add_sub_cancel_left]) hnode
    unfold itemToRange
    rw [hback, hrange, BitVec.toInt_eq_toNat_of_lt (by rw [hword]; omega), hword]
    unfold idxToRange groupOrderNumShift
    omega
  · rw [hidx, idxToPnode, hword, hscan]
    rfl
  · rw [rangeToItem, hidx, hscan, hi]
    rfl

/-- A block handed out has the address its place says, and is found there. -/
theorem Handed.range (h : Handed st nu n held ranges) (hi : i ∈ held) :
    itemToRange st i = rangeAt st nu i ∧
      idxToPnode st (BitVec.ofNat 64 (rangeToIdx (itemToRange st i))) (st.nodes (.phy nu)).dim = some nu ∧
      rangeToItem st (itemToRange st i) (st.nodes (.phy nu)).dim = some i := by
  obtain ⟨d, hd, hself⟩ := h.region.inRange (.inl hi)
  obtain ⟨he, hp, hf⟩ := range_of_window h.windows h.region.node h.size hd hself
    (h.region.own i (.inl hi)).node
  exact ⟨he, by rw [he]; exact hp, by rw [he]; exact hf⟩

/-- **The addresses handed out**: each finds its block, in the window, at a multiple of the block's size,
    and no two blocks share a byte. -/
theorem Handed.apart (h : Handed st nu n held ranges) : RangesApart st nu held := by
  have hpages : ∀ i ∈ held, itemToRange st i = rangeAt st nu i := fun i hi => (h.range hi).1
  refine ⟨fun i hi => (h.range hi).2, fun i hi => ?_, fun i hi => ?_, ?_⟩
  · have hend := Nat.mul_le_mul_right fixedItemSize (h.region.placed hi).2
    rw [Nat.add_mul] at hend
    rw [hpages i hi, h.size]
    refine ⟨Nat.le_add_right _ _, ?_⟩
    unfold rangeAt blockBytes
    omega
  · rw [hpages i hi, rangeAt, Nat.add_sub_cancel_left]
    exact Nat.mul_dvd_mul_right (h.region.aligned _
      (Multiset.mem_add.mpr (.inr (mem_liveBlocks (.inl hi))))) _
  · have hle : (held : Multiset Item).map (markedBlock st nu) ≤ liveBlocks st nu held :=
      Multiset.map_le_map (Multiset.coe_le.mpr (List.sublist_append_left _ _).subperm)
    have hlive := h.region.whole.apart.of_le (hle.trans (Multiset.le_add_left _ _))
    refine hlive.pairwise.imp_of_mem fun hi hj hij => ?_
    rw [hpages _ hi, hpages _ hj]
    unfold rangeAt blockBytes
    refine hij.imp (fun hle => ?_) fun hle => ?_
    all_goals
      have hle := Nat.mul_le_mul_right fixedItemSize hle
      rw [Nat.add_mul] at hle
      rw [Nat.add_assoc]
      exact Nat.add_le_add_left hle _

end Addresses

/-! ## 3. A request of one block -/

section Requests

variable {r : Reading} {fuel : Nat} {dispatch : DispatchFn} {st st' : State} {nu nitems a : Nat}
  {flags : ItemFunc} {mt : MigrationType}

/-- A request for one block that is not MOVABLE is a debug request, or for one page. -/
theorem prepare_block (h : prepareNodeStructAlloc nitems flags = some (mt, nestedPara false))
    (hmt : mt ≠ .movable) : flags = .physicalDebug ∧ mt = .unmovable ∨
      (nitems = 1 ∧ mt = .lrutype ∧ flags ≠ .physicalDebug ∧ flags ≠ .physicalReserved) := by
  unfold prepareNodeStructAlloc nestedPara at h
  by_cases hdebug : flags = .physicalDebug
  · rw [if_pos hdebug] at h
    cases h
    exact .inl ⟨hdebug, rfl⟩
  · rw [if_neg hdebug] at h
    by_cases hreserved : flags = .physicalReserved
    · rw [if_pos hreserved] at h
      cases h
    · rw [if_neg hreserved] at h
      split at h
      · next hone =>
          cases h
          exact .inr ⟨hone.1, rfl, hdebug, hreserved⟩
      · cases flags <;> cases h <;> exact absurd rfl hmt

/-- A page is admitted as it is. -/
theorem preprocess_page {dim : Nat} {psize : Int} (hd : flags ≠ .physicalDebug)
    (hr : flags ≠ .physicalReserved) (h : preprocessNodeStructAlloc st flags 1 mt dim = some psize) :
    psize = 1 := by
  unfold preprocessNodeStructAlloc at h
  cases flags <;> first | exact absurd rfl hd | exact absurd rfl hr | exact (Option.some.inj h).symm

/-- **A request of one block is one dispatch, and the address that of the block.** -/
theorem nodeStructAlloc_dispatched (hcur : getCurrentNodeNum (st.nodes (.phy nu)).dim = some nu)
    (hp : prepareNodeStructAlloc nitems flags = some (mt, nestedPara false)) (hmt : mt ≠ .movable)
    (h : nodeStructAlloc r fuel dispatch st (.phy nu) nitems flags = some (st', .noError, some a)) :
    ∃ lvl order item, RequestAt st nu nitems lvl order ∧
      dispatch st (.phy nu) lvl mt order (nestedPara false) = some (st', .noError, some item) ∧
      a = itemToRange st' item := by
  rcases prepare_block hp hmt with ⟨rfl, rfl⟩ | ⟨rfl, rfl, hd, hr⟩
  · rw [nodeStructAlloc_debug] at h
    obtain ⟨⟨st1, ret, item⟩, hb, h⟩ := Option.bind_eq_some_iff.mp h
    by_cases hret : ret = .noError
    · subst hret
      rw [if_neg fun hne => hne rfl, Option.map_eq_some_iff] at h
      obtain ⟨i, rfl, h⟩ := h
      cases h
      obtain ⟨-, lvl, order, hat, hdis⟩ := debugAlloc_dispatched hcur hb
      exact ⟨lvl, order, i, hat, hdis, rfl⟩
    · rw [if_pos hret] at h
      cases h
  · unfold nodeStructAlloc at h
    rw [if_neg fun h => absurd h.1 (by decide), hp] at h
    simp only [Option.bind_eq_bind, Option.bind_some] at h
    obtain ⟨psize, hpre, h⟩ := Option.bind_eq_some_iff.mp h
    obtain rfl := preprocess_page hd hr hpre
    rw [if_neg (by decide), if_neg (show ¬ MigrationType.lrutype = .sparseMovable by decide)] at h
    obtain ⟨suff, -, h⟩ := Option.bind_eq_some_iff.mp h
    split at h
    · cases h
    · rw [if_neg (show ¬ (nestedPara false).isEntry = true by decide)] at h
      obtain ⟨⟨st1, ret, item⟩, hc, h⟩ := Option.bind_eq_some_iff.mp h
      dsimp only at h
      split at h
      · cases h
      · next hret =>
          obtain rfl : ret = .noError := Decidable.not_not.mp hret
          obtain ⟨i, rfl, h⟩ := Option.bind_eq_some_iff.mp h
          cases h
          obtain ⟨lvl, order, hat, hdis⟩ := @compoundGroup_two_pow r fuel dispatch st st' nu i .lrutype 0
            (by decide) hcur hc
          exact ⟨lvl, order, i, hat, hdis, rfl⟩

end Requests

/-! ## 4. Runs -/

section Runs

variable {r : Reading} {s : Searches} {env : StreamEnv} {st st' : State}
  {nu n depth fuel allocFuel freeFuel : Nat} {held held' : List Item} {ranges : List Nat} {i : Item}
  {transform : Item → Item} {x x' : State × List Nat} {op : RangeOp}

/-- A step leaves the windows. -/
theorem Stepped.windows (h : Stepped st st' nu held held' n) {dim : Nat} (hW : NodeWindows st dim) :
    NodeWindows st' dim := by
  have hsite : ∀ k, (st'.nodes (.phy k)).offset = (st.nodes (.phy k)).offset ∧
      (st'.nodes (.phy k)).size = (st.nodes (.phy k)).size := by
    intro k
    by_cases hk : k = nu
    · have he := h.confined.site
      simp only [NodeStruct.site, Prod.mk.injEq] at he
      rw [hk]
      exact ⟨he.2.1, he.2.2.1⟩
    · rw [h.confined.nodes _ fun e => hk (NodeRef.phy.inj e)]
      exact ⟨rfl, rfl⟩
  have hholds : ∀ k a, Holds st' k a ↔ Holds st k a := fun k a => by
    unfold Holds
    rw [(hsite k).1, (hsite k).2]
  refine ⟨fun i hi => ?_, fun i hi => ?_, fun i hi j hj hij a h => hW.disjoint i hi j hj hij a ?_⟩
  · rw [(hsite _).1, (hsite _).2]
    exact hW.aligned i hi
  · rw [(hsite _).1, (hsite _).2]
    exact hW.noWrap i hi
  · exact ⟨(hholds _ a).mp h.1, (hholds _ a).mp h.2⟩

/-- **A step moves no address**: what is handed out before and after it keeps its own. -/
theorem Handed.stepped (h : Handed st nu n held ranges) (hst : Stepped st st' nu held held' n) :
    Handed st' nu n held' (held'.map (itemToRange st')) ∧
      ∀ i ∈ held, i ∈ held' → itemToRange st' i = itemToRange st i := by
  have hsite := hst.confined.site
  simp only [NodeStruct.site, Prod.mk.injEq] at hsite
  obtain ⟨hdim, hoff, hsize, hroot⟩ := hsite
  have hH : Handed st' nu n held' (held'.map (itemToRange st')) :=
    ⟨hst.region, by rw [hdim]; exact hst.windows h.windows, hsize.trans h.size, hroot.trans h.plain, rfl⟩
  refine ⟨hH, fun i hi hi' => ?_⟩
  rw [(h.range hi).1, (hH.range hi').1, rangeAt, rangeAt, hoff, hst.confined.tables]

/-- Two blocks have two addresses. -/
theorem Handed.inj (h : Handed st nu n held ranges) {j : Item} (hi : i ∈ held) (hj : j ∈ held)
    (he : itemToRange st i = itemToRange st j) : i = j := by
  have hfound := (h.range hi).2.2
  rw [he, (h.range hj).2.2] at hfound
  exact (Option.some.inj hfound).symm

/-- **The address leads to its block.** -/
theorem Handed.free_found (h : Handed st nu n held ranges) (hi : i ∈ held) :
    nodeStructFree r freeFuel transform st (itemToRange st i) (st.nodes (.phy nu)).dim =
      decomposeGroup r freeFuel st i false := by
  obtain ⟨-, hpnode, hfound⟩ := h.range hi
  unfold nodeStructFree
  dsimp only
  rw [hpnode]
  dsimp only
  rw [h.plain, hfound]
  rfl

/-- A name given once is taken off with what it names. -/
theorem map_erase_of_inj {α β : Type*} [DecidableEq α] [BEq β] [LawfulBEq β] {f : α → β} {a : α} {l : List α}
    (ha : a ∈ l) (hf : ∀ b ∈ l, f b = f a → b = a) : (l.map f).erase (f a) = (l.erase a).map f := by
  induction l with
  | nil => cases ha
  | cons b l ih =>
      rw [List.map_cons]
      by_cases hb : b = a
      · rw [hb, List.erase_cons_head, List.erase_cons_head]
      · rw [List.erase_cons_tail (by simpa using fun e => hb (hf b List.mem_cons_self e)),
          List.erase_cons_tail (by simpa using hb), List.map_cons,
          ih (List.mem_of_ne_of_mem (Ne.symm hb) ha) fun c hc => hf c (List.mem_cons_of_mem b hc)]

/-- **A call by address is a step by descriptor**: of the block the address was handed out for. -/
theorem rangeStep_simulated (h : Handed x.1 nu n held x.2) (hM : RangeMeets env.itemarrayPrev nu x.1 op)
    (hx : rangeStep r allocFuel (dispatchGroup (s.withSparse env (fuel + 1)) (depth + 2)) nu transform
      freeFuel x op = some x') :
    ∃ cop held', StepMeets env.itemarrayPrev nu x.1 cop ∧
      counterStep r (s.withSparse env (fuel + 1)) (depth + 2) freeFuel nu (x.1, held) cop =
        some (x'.1, held') ∧
      Handed x'.1 nu n held' x'.2 := by
  cases op with
  | alloc nitems flags =>
      obtain ⟨mt, hp, hmt, hA⟩ := hM
      unfold rangeStep at hx
      dsimp only at hx
      split at hx
      · next st' a hcall =>
          obtain rfl := Option.some.inj hx
          obtain ⟨lvl, order, item, hat, hdis, rfl⟩ :=
            nodeStructAlloc_dispatched h.region.node.current hp hmt hcall
          have hcounter : counterStep r (s.withSparse env (fuel + 1)) (depth + 2) freeFuel nu
              (x.1, held) (.alloc lvl mt order false) = some (st', item :: held) := by
            unfold counterStep
            dsimp only
            rw [hdis]
          have hmeets : StepMeets env.itemarrayPrev nu x.1 (.alloc lvl mt order false) := hA lvl order hat
          refine ⟨_, _, hmeets, hcounter, ?_⟩
          obtain ⟨hH, hsame⟩ := h.stepped (counterStep_stepped (x := (x.1, held)) h.region hmeets hcounter)
          refine ⟨hH.region, hH.windows, hH.size, hH.plain, ?_⟩
          rw [List.map_cons, h.ranges]
          exact congrArg _ (List.map_congr_left fun i hi =>
            (hsame i hi (List.mem_cons_of_mem item hi)).symm)
      · cases hx
  | free rangeBase =>
      unfold rangeStep at hx
      dsimp only at hx
      split at hx
      · next hmem =>
          rw [h.ranges] at hmem
          obtain ⟨item, hi, rfl⟩ := List.mem_map.mp hmem
          have hfound := (h.range hi).2.2
          rw [h.free_found hi, decomposeGroup] at hx
          cases hclass : freeClass x.1 item with
          | none =>
              rw [hclass] at hx
              cases hx
          | some mt =>
              rw [hclass] at hx
              dsimp only at hx
              cases hf : findGroupReversed r freeFuel x.1 mt item false with
              | none =>
                  rw [hf] at hx
                  cases hx
              | some q =>
                  rw [hf] at hx
                  obtain rfl := Option.some.inj hx
                  have hcounter : counterStep r (s.withSparse env (fuel + 1)) (depth + 2) freeFuel nu
                      (x.1, held) (.free mt item) = some (q.1, held.erase item) := by
                    unfold counterStep
                    dsimp only
                    rw [if_pos hi, hf]
                    rfl
                  have hmeets : StepMeets env.itemarrayPrev nu x.1 (.free mt item) :=
                    hM item mt hfound hclass
                  refine ⟨_, _, hmeets, hcounter, ?_⟩
                  obtain ⟨hH, hsame⟩ := h.stepped (counterStep_stepped (x := (x.1, held)) h.region hmeets hcounter)
                  refine ⟨hH.region, hH.windows, hH.size, hH.plain, ?_⟩
                  show x.2.erase (itemToRange x.1 item) = _
                  rw [h.ranges, map_erase_of_inj hi fun j hj he => h.inj hj hi he]
                  exact List.map_congr_left fun i hi => (hsame i (List.mem_of_mem_erase hi) hi).symm
      · cases hx

/-- **Whatever is asked for and given back by address**: the blocks handed out are in the node's window,
    each found at its address, each at a multiple of its size, and no two share a byte; the node goes
    through divisions. -/
theorem ranges_apart (s : Searches) (env : StreamEnv) (depth fuel allocFuel freeFuel : Nat)
    (transform : Item → Item) (nu n : Nat) :
    ∀ r x x' ops held, Handed x.1 nu n held x.2 →
      RangesMeet env.itemarrayPrev r allocFuel (dispatchGroup (s.withSparse env (fuel + 1)) (depth + 2))
        nu transform freeFuel x ops →
      rangeRun r allocFuel (dispatchGroup (s.withSparse env (fuel + 1)) (depth + 2)) nu transform
        freeFuel x ops = some x' →
      ∃ held', Handed x'.1 nu n held' x'.2 ∧ RangesApart x'.1 nu held' ∧
        (division x.1 nu held).Reach (division x'.1 nu held') := by
  intro r x x' ops held h hM hrun
  induction ops generalizing x held with
  | nil =>
      obtain rfl := Option.some.inj hrun
      exact ⟨held, h, h.apart, .refl⟩
  | cons op ops ih =>
      obtain ⟨hstep, hrest⟩ := hM
      rw [rangeRun, Option.bind_eq_some_iff] at hrun
      obtain ⟨y, hy, hrun⟩ := hrun
      obtain ⟨cop, held1, hmeets, hcounter, hH⟩ := rangeStep_simulated h hstep hy
      have hst := counterStep_stepped (x := (x.1, held)) h.region hmeets hcounter
      obtain ⟨held', hH', hap, hreach⟩ := ih y held1 hH (hrest y hy) hrun
      exact ⟨held', hH', hap, hst.reach.trans hreach⟩

end Runs

/-! ## 5. Four pages -/

/-- A node of four pages from `0x4000`, one MOVABLE block. -/
def fourPages : State :=
  { (bareNodes 3 fun _ => 0).put 0 (3, .movable, 2) 0 with
    nodes := fun node => { (bareNodes 3 fun _ => 0).nodes node with
      offset := if node = .phy 0 then 0x4000 else 0
      size := if node = .phy 0 then 4 * fixedItemSize else 0
      nrFreeitems := 4#64 } }

theorem fourPages_handed : Handed fourPages 0 4 [] [] := by
  have hR : Region ((bareNodes 3 fun _ => 0).put 0 (3, .movable, 2) 0) 0 [] 4 :=
    (bareNodes_region 3 (fun _ => 0) 0 rfl).put (by decide +kernel) rfl (Nat.dvd_zero _)
      (fun _ _ => rfl) (by decide)
  have hO : Region fourPages 0 [] 4 ∧ division fourPages 0 [] = division _ 0 [] :=
    hR.kept (hR.linked.congr rfl fun _ => rfl) (hR.node.congr rfl rfl rfl hR.node.mode) rfl ⟨rfl, rfl⟩
      (fun _ _ => ⟨rfl, rfl⟩) hR.orders (fun _ _ => rfl) hR.inside
  refine ⟨hO.1, ⟨by decide, by decide, fun i hi j hj hij a h => ?_⟩, by decide, rfl, rfl⟩
  have hempty : ∀ k < nodeLvlNum, k ≠ 0 →
      (fourPages.nodes (.phy (pnodeAt (fourPages.nodes (.phy 0)).dim k))).size = 0 := by
    decide
  obtain ⟨hi', hj'⟩ := h
  unfold Holds at hi' hj'
  by_cases h0 : i = 0
  · rw [hempty j hj (by omega)] at hj'
    omega
  · rw [hempty i hi h0] at hi'
    omega

/-- Two pages for debugging and one for the cache are cut off. The two come back and are joined, and are
    handed out as one block; the page of the cache comes back and is handed out from there. -/
theorem fourPages_apart : ∃ st', rangeRun .listFirst 1
      (dispatchGroup (noSearch.withSparse streamEnv 1) 2) 0 id 1 (fourPages, [])
      [.alloc 1 .physicalDebug, .alloc 1 .physicalDebug, .alloc 1 .physical, .free 0x4000,
        .free 0x5000, .alloc 2 .physicalDebug, .free 0x6000, .alloc 1 .physical] =
        some (st', [0x6000, 0x4000]) ∧
    ∃ held, Handed st' 0 4 held [0x6000, 0x4000] ∧ RangesApart st' 0 held := by
  have hrun : (rangeRun .listFirst 1 (dispatchGroup (noSearch.withSparse streamEnv 1) 2) 0 id 1
      (fourPages, [])
      [.alloc 1 .physicalDebug, .alloc 1 .physicalDebug, .alloc 1 .physical, .free 0x4000,
        .free 0x5000, .alloc 2 .physicalDebug, .free 0x6000, .alloc 1 .physical]).map
        (fun x => x.2) = some [0x6000, 0x4000] := by
    decide +kernel
  obtain ⟨⟨st', ranges⟩, hrun, rfl⟩ := Option.map_eq_some_iff.mp hrun
  have hmeets : RangesMeet streamEnv.itemarrayPrev .listFirst 1
      (dispatchGroup (noSearch.withSparse streamEnv 1) 2) 0 id 1 (fourPages, [])
      [.alloc 1 .physicalDebug, .alloc 1 .physicalDebug, .alloc 1 .physical, .free 0x4000,
        .free 0x5000, .alloc 2 .physicalDebug, .free 0x6000, .alloc 1 .physical] := by
    decide +kernel
  obtain ⟨held, hH, hap, -⟩ := ranges_apart noSearch streamEnv 0 0 1 1 id 0 4 .listFirst (fourPages, [])
    (st', [0x6000, 0x4000]) _ [] fourPages_handed hmeets hrun
  exact ⟨st', hrun, held, hH, hap⟩

end TensorAlloc
