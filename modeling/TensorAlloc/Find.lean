/-
  File:      TensorAlloc/Find.lean
  Subject:   `find_group`: a request peeled into digits, one per level, and each digit into blocks.

  * `Dispatch` -- the `dispatch` entry of the chosen node, as a function of the calls made so far and
    the globals: what it keeps elsewhere is a function of the calls;
  * `Call` -- GHOST: level and order of a call with the item it returned;
  * `findGroup` -- `none` where a loop outruns `fuel` or the cleanup faults;
  * `findGroup_combined` -- the positions of the blocks dispatched are the ones of the count, from
    the top: everything else follows from that;
  * `compound_given_back_iff` -- the cleanup of a failed request;
  * `entry_never_served` -- the loop over a digit takes nothing from the digit of an entry.
-/
import TensorAlloc.Base.Ones
import TensorAlloc.Dequeue

namespace TensorAlloc

/-! ## 1. The loops -/

/-- One successful call of the callback. -/
structure Call where
  level : Nat
  order : Nat
  item : Item
  deriving DecidableEq, Repr

/-- The callback: the new globals and the item, `none` for an error. -/
abbrev Dispatch := List Call → State → Nat → Nat → State × Option Item

/-- `struct alloc_para`, what `find_group` reads of it. -/
structure AllocPara where
  isCombined : Bool
  isVirtual : Bool
  isEntry : Bool
  deriving DecidableEq, Repr

/-- The variables of the loops: the globals, the calls so far, `item_ptr`. -/
structure FindVars where
  st : State
  calls : List Call
  itemPtr : Option Item

/-- The blocks obtained. -/
def FindVars.blocks (v : FindVars) : List Item := v.calls.map Call.item

section Loops

variable (fuel : Nat) (dispatch : Dispatch) (para : AllocPara) (mt : MigrationType)

/-- One dispatch and the append. The flag is false where the callback reports an error. -/
def dispatchOne (level lvlOrder : Nat) (v : FindVars) : Option (FindVars × Bool) :=
  match dispatch v.calls v.st level lvlOrder with
  | (st, none) => some ({ v with st := st }, false)
  | (st, some tmp) =>
      let itemPtr := v.itemPtr.getD tmp
      let calls := v.calls ++ [⟨level, lvlOrder, tmp⟩]
      if para.isCombined = true ∧ (itemPtr ≠ tmp ∨ compoundItem st tmp = false) then
        (compoundAppend fuel st tmp itemPtr).map fun st => (⟨st, calls, some itemPtr⟩, true)
      else some (⟨st, calls, some itemPtr⟩, true)

/-- `lvl_order`, and what is left of `lvl_nitem`. An entry passes the digit itself, as an `int`, and
    leaves it. -/
def lvlOrderOf (lvlNitem : Nat) : Nat × Nat :=
  if para.isEntry then (lvlNitem % 2 ^ 32, lvlNitem)
  else if para.isCombined then itemToOrders lvlNitem
  else itemToOrder lvlNitem

/-- The `do … while` over one digit, at most `n` rounds. -/
def dispatchLoop (level : Nat) : Nat → Nat → FindVars → Option (FindVars × Bool)
  | 0, _, _ => none
  | n + 1, lvlNitem, v => do
      let (lvlOrder, rest) := lvlOrderOf para lvlNitem
      let (v, ok) ← dispatchOne fuel dispatch para level lvlOrder v
      if ok = false then pure (v, false)
      else if rest = 0 then pure (v, true)
      else dispatchLoop level n rest v

/-- `block_shift` of a level. -/
def findShift (level : Nat) : Nat :=
  if para.isEntry then functionItemLvlPrior groupPriorNumShift level
  else functionItemLvl (if mt = .sparseMovable then groupRangeNumShift else groupOrderNumShift) level

/-- The loop over `n` levels from `level`. -/
def findLevels : Nat → Nat → Nat → FindVars → Option (FindVars × Bool)
  | 0, _, _, v => some (v, true)
  | n + 1, level, nitems, v => do
      let blockSize := 2 ^ findShift para mt level
      let lvlNitem := nitems / blockSize
      if lvlNitem = 0 then findLevels n (level + 1) (nitems % blockSize) v
      else
        let (v, ok) ← dispatchLoop fuel dispatch para level fuel lvlNitem v
        if ok = false then pure (v, false)
        else findLevels n (level + 1) (nitems % blockSize) v

end Loops

/-- What `find_group` leaves: the globals, whether it reports `NO_ERROR`, `*item`, and two GHOST
    lists: the calls it made and the blocks its cleanup gave back. -/
structure Found where
  st : State
  ok : Bool
  item : Option Item
  calls : List Call
  given : List Item

/-- The exit of `find_group`: the cleanup where a dispatch failed. It passes two of three
    arguments: `is_virtual` is read as the request's. -/
def findExit (r : Reading) (fuel : Nat) (para : AllocPara) (mt : MigrationType) (v : FindVars)
    (ok : Bool) : Option Found :=
  if ok = true then some ⟨v.st, true, v.itemPtr, v.calls, []⟩
  else
    match v.itemPtr with
    | none => some ⟨v.st, false, none, v.calls, []⟩
    | some item => (findGroupReversed r fuel v.st mt item para.isVirtual).map fun q =>
        ⟨q.1, false, none, v.calls, q.2⟩

/-- `find_group`, of the node whose callback is `dispatch`. -/
def findGroup (r : Reading) (fuel : Nat) (dispatch : Dispatch) (st : State) (nitems : Nat)
    (mt : MigrationType) (lvl lvlEnd : Nat) (para : AllocPara) : Option Found := do
  let level := if para.isEntry then lvl + 1 else lvl
  let (v, ok) ← findLevels fuel dispatch para mt (lvlEnd - level) level nitems ⟨st, [], none⟩
  findExit r fuel para mt v ok

/-! ## 2. A callback that hands out fresh blocks -/

/-- The callback hands out single blocks it did not hand out before, and leaves the links of those it
    did. -/
structure Fresh (dispatch : Dispatch) : Prop where
  keeps : ∀ calls st level order, ∀ c ∈ calls,
    ((dispatch calls st level order).1.items c.item).compoundNode =
      (st.items c.item).compoundNode ∧
    ((dispatch calls st level order).1.items c.item).compoundHead =
      (st.items c.item).compoundHead
  new : ∀ calls st level order i, (dispatch calls st level order).2 = some i →
    i ∉ calls.map Call.item ∧
      ((dispatch calls st level order).1.items i).compoundNode = none ∧
      ((dispatch calls st level order).1.items i).compoundHead = false

section Combined

variable {fuel : Nat} {dispatch : Dispatch} {para : AllocPara} {mt : MigrationType}
  {v v' : FindVars} {ok : Bool}

/-- What holds between two dispatches: nothing obtained, or one chain. -/
def Grown (v : FindVars) : Prop :=
  (v.calls = [] ∧ v.itemPtr = none) ∨
    ∃ head, v.itemPtr = some head ∧ CompoundChain v.st v.blocks head

/-- The chain where the links of its blocks, and the flags, are the same. -/
theorem CompoundChain.congr {st st' : State} {blocks : List Item} {head : Item}
    (hc : CompoundChain st blocks head)
    (hsame : ∀ i ∈ blocks, (st'.items i).compoundNode = (st.items i).compoundNode ∧
      (st'.items i).compoundHead = (st.items i).compoundHead) :
    CompoundChain st' blocks head :=
  ⟨hc.first, hc.nodup, hc.links.congr fun i hi => (hsame i hi).1,
    (hsame head (List.mem_of_head? hc.first)).2.trans hc.flag⟩

/-- The first block of a chain: the append only sets its flag. -/
theorem compoundAppend_first {st : State} {tmp : Item}
    (hnode : (st.items tmp).compoundNode = none) (hflag : (st.items tmp).compoundHead = false) :
    ∃ st', compoundAppend fuel st tmp tmp = some st' ∧ CompoundChain st' [tmp] tmp := by
  refine ⟨st.modItem tmp fun x => { x with compoundHead := true }, if_pos hflag, rfl,
    List.nodup_singleton tmp, ⟨?_, trivial⟩, ?_⟩
  · rw [State.modItem_items, if_pos rfl]
    exact hnode
  · unfold compoundItem
    rw [State.modItem_items, if_pos rfl]

/-- A block that is not on the chain becomes its last. -/
theorem CompoundChain.append {st : State} {blocks : List Item} {head tmp : Item}
    (hc : CompoundChain st blocks head) (hfresh : tmp ∉ blocks)
    (hnode : (st.items tmp).compoundNode = none) (hfuel : blocks.length ≤ fuel) :
    ∃ st', compoundAppend fuel st tmp head = some st' ∧
      CompoundChain st' (blocks ++ [tmp]) head := by
  obtain ⟨l, rfl⟩ : ∃ l, blocks = head :: l := List.head?_eq_some_iff.mp hc.first
  obtain ⟨st', hrun, hchain, hflag⟩ := compoundAppend_chain hc.links hc.flag hfresh hnode
    (Nat.lt_of_lt_of_le (Nat.lt_succ_self _) hfuel)
  refine ⟨st', hrun, rfl, ?_, hchain, hflag⟩
  rw [List.nodup_append]
  refine ⟨hc.nodup, List.nodup_singleton tmp, fun a ha b hb e => ?_⟩
  rw [e, List.mem_singleton.mp hb] at ha
  exact hfresh ha

/-- **One dispatch keeps the chain**: a block obtained becomes its last. -/
theorem dispatchOne_grown (hF : Fresh dispatch) (hcomb : para.isCombined = true) (hG : Grown v)
    (hfuel : v.calls.length < fuel) (level order : Nat) :
    ∃ v' ok, dispatchOne fuel dispatch para level order v = some (v', ok) ∧ Grown v' ∧
      (ok = false → v'.calls = v.calls ∧ (dispatch v.calls v.st level order).2 = none) ∧
      (ok = true → ∃ i, v'.calls = v.calls ++ [⟨level, order, i⟩]) := by
  have hkeeps := hF.keeps v.calls v.st level order
  have hnew := hF.new v.calls v.st level order
  -- the chain survives the call itself
  have hold : ∀ head, CompoundChain v.st v.blocks head →
      CompoundChain (dispatch v.calls v.st level order).1 v.blocks head := fun head hc =>
    hc.congr fun i hi => by
      obtain ⟨c, hcm, rfl⟩ := List.mem_map.mp hi
      exact hkeeps c hcm
  unfold dispatchOne
  generalize dispatch v.calls v.st level order = d at hkeeps hnew hold ⊢
  obtain ⟨st, res⟩ := d
  cases res with
  | none =>
      refine ⟨_, false, rfl, ?_, fun _ => ⟨rfl, rfl⟩, fun h => by cases h⟩
      rcases hG with h | ⟨head, h1, h2⟩
      · exact .inl h
      · exact .inr ⟨head, h1, hold head h2⟩
  | some tmp =>
      obtain ⟨hfresh, hnode, hflag⟩ := hnew tmp rfl
      dsimp only at hfresh hnode hflag ⊢
      have hblocks : ∀ st p, (⟨st, v.calls ++ [⟨level, order, tmp⟩], p⟩ : FindVars).blocks =
          v.blocks ++ [tmp] := fun st p => List.map_append
      rcases hG with ⟨hnil, hptr⟩ | ⟨head, hptr, hc⟩
      · have hempty : v.blocks = [] := by rw [FindVars.blocks, hnil, List.map_nil]
        have hcond : para.isCombined = true ∧
            (v.itemPtr.getD tmp ≠ tmp ∨ compoundItem st tmp = false) := ⟨hcomb, .inr hflag⟩
        obtain ⟨st', hrun, hchain⟩ := @compoundAppend_first fuel st tmp hnode hflag
        rw [if_pos hcond, hptr, Option.getD_none, hrun]
        refine ⟨_, true, rfl, .inr ⟨tmp, rfl, ?_⟩, (by intro h; cases h), fun _ => ⟨tmp, rfl⟩⟩
        rw [hblocks, hempty]
        exact hchain
      · have hne : head ≠ tmp := by
          intro e
          subst e
          exact hfresh (List.mem_of_head? hc.first)
        have hcond : para.isCombined = true ∧
            (v.itemPtr.getD tmp ≠ tmp ∨ compoundItem st tmp = false) :=
          ⟨hcomb, .inl (by rw [hptr]; exact hne)⟩
        have hlen : v.blocks.length = v.calls.length := List.length_map _
        obtain ⟨st', hrun, hchain⟩ := (hold head hc).append hfresh hnode
          (Nat.le_of_lt (hlen.trans_lt hfuel))
        rw [if_pos hcond, hptr, Option.getD_some, hrun]
        refine ⟨_, true, rfl, .inr ⟨head, rfl, ?_⟩, (by intro h; cases h), fun _ => ⟨tmp, rfl⟩⟩
        rw [hblocks]
        exact hchain

/-! ## 3. The blocks of a digit, and of a request -/

/-- `item_to_orders` takes the highest one away. -/
theorem itemToOrders_eq {n : Nat} (h : n ≠ 0) : itemToOrders n = (n.log2, n - 2 ^ n.log2) := by
  have hbit : n.testBit n.log2 = true := Nat.testBit_log2 h
  unfold itemToOrders fls
  simp only [if_neg h, Nat.add_sub_cancel, hbit, if_true, Nat.succ_ne_zero, if_false]

/-- A count that `item_to_order` meets exactly. -/
theorem itemToOrder_two_pow (k : Nat) : itemToOrder (2 ^ k) = (k, 0) := by
  unfold itemToOrder fls
  simp only [Nat.log2_two_pow, Nat.add_sub_cancel, Nat.lt_irrefl, if_false,
    (Nat.two_pow_pos k).ne', ite_self]

/-- The position of a block in the count: the bit its size is. -/
def Call.position (c : Call) : Nat := c.order + functionItemLvl groupOrderNumShift c.level

/-- `v'` is `v` after the calls `new`, the chain grown by their blocks; or a dispatch failed. -/
structure Peeled (dispatch : Dispatch) (v v' : FindVars) (ok : Bool) (new : List Call) : Prop where
  grown : Grown v'
  calls : v'.calls = v.calls ++ new
  failed : ok = false → ∃ calls st level order, (dispatch calls st level order).2 = none

/-- **A digit is dispatched bit by bit**, the highest first. -/
theorem dispatchLoop_peels (hF : Fresh dispatch) (hcomb : para.isCombined = true)
    (hentry : para.isEntry = false) (level : Nat) {n lvlNitem : Nat} (h0 : lvlNitem ≠ 0)
    (hn : lvlNitem.bitIndices.length ≤ n) (hG : Grown v)
    (hfuel : v.calls.length + lvlNitem.bitIndices.length ≤ fuel) :
    ∃ v' ok new, dispatchLoop fuel dispatch para level n lvlNitem v = some (v', ok) ∧
      Peeled dispatch v v' ok new ∧
      (ok = true → (new.map fun c => (c.level, c.order)) =
        lvlNitem.bitIndices.reverse.map fun o => (level, o)) := by
  induction n generalizing lvlNitem v with
  | zero =>
      rw [Ones.bitIndices_top h0, List.length_append] at hn
      cases hn
  | succ n ih =>
      have htop := Ones.bitIndices_top h0
      rw [htop, List.length_append, List.length_singleton] at hn hfuel
      have horders : lvlOrderOf para lvlNitem = (lvlNitem.log2, lvlNitem - 2 ^ lvlNitem.log2) := by
        unfold lvlOrderOf
        rw [hentry, hcomb]
        exact itemToOrders_eq h0
      have hlt : v.calls.length < fuel := by omega
      obtain ⟨v1, ok, hone, hG1, hbad, hgood⟩ :=
        dispatchOne_grown hF hcomb hG hlt level lvlNitem.log2
      rw [dispatchLoop, horders]
      simp only [hone, Option.bind_eq_bind, Option.bind_some]
      cases ok with
      | false =>
          obtain ⟨hcalls, hnone⟩ := hbad rfl
          exact ⟨v1, false, [], rfl,
            ⟨hG1, by rw [hcalls, List.append_nil], fun _ => ⟨_, _, _, _, hnone⟩⟩,
            fun h => by cases h⟩
      | true =>
          obtain ⟨i, hcalls⟩ := hgood rfl
          rw [if_neg (by decide)]
          by_cases hrest : lvlNitem - 2 ^ lvlNitem.log2 = 0
          · rw [if_pos hrest]
            refine ⟨v1, true, [⟨level, lvlNitem.log2, i⟩], rfl,
              ⟨hG1, hcalls, fun h => by cases h⟩, fun _ => ?_⟩
            rw [htop, hrest, Nat.bitIndices_zero]
            rfl
          · rw [if_neg hrest]
            obtain ⟨v2, ok, new, hrun, hP, hnew⟩ := ih hrest (by omega) hG1 (by
              rw [hcalls, List.length_append, List.length_singleton]
              omega)
            refine ⟨v2, ok, ⟨level, lvlNitem.log2, i⟩ :: new, hrun, ⟨hP.grown, ?_, hP.failed⟩,
              fun hok => ?_⟩
            · rw [hP.calls, hcalls, List.append_assoc, List.singleton_append]
            · rw [htop, List.reverse_append, List.reverse_singleton, List.singleton_append,
                List.map_cons, List.map_cons, hnew hok]

theorem findShift_eq (hentry : para.isEntry = false) (level : Nat) :
    findShift para mt level = functionItemLvl groupOrderNumShift level := by
  unfold findShift
  rw [hentry, if_neg (by decide)]
  split <;> rfl

/-- The blocks of a digit lie on its level, at the bits of the digit. -/
theorem digit_positions {level digit : Nat} {new : List Call}
    (h : (new.map fun c => (c.level, c.order)) = digit.bitIndices.reverse.map fun o => (level, o)) :
    new.map Call.position =
        digit.bitIndices.reverse.map (· + functionItemLvl groupOrderNumShift level) ∧
      ∀ c ∈ new, c.level = level := by
  constructor
  · have hpos := congrArg (List.map fun p : Nat × Nat =>
      p.2 + functionItemLvl groupOrderNumShift p.1) h
    rw [List.map_map, List.map_map] at hpos
    exact hpos
  · intro c hc
    have hm : (c.level, c.order) ∈ new.map fun c => (c.level, c.order) := List.mem_map_of_mem hc
    rw [h] at hm
    obtain ⟨o, -, ho⟩ := List.mem_map.mp hm
    exact (congrArg Prod.fst ho).symm

/-- A rest below the unit of the level is of orders up to 8 on the next one. -/
theorem rest_orders {level rest : Nat} (hl : level ≤ 3)
    (hrest : rest < 2 ^ functionItemLvl groupOrderNumShift level) {new : List Call}
    (hpos : new.map Call.position = rest.bitIndices.reverse)
    (hnew : ∀ c ∈ new, level + 1 ≤ c.level ∧ c.level < groupLvlNum ∧
      (c.level ≠ level + 1 → c.order ≤ maxItemOrder)) :
    ∀ c ∈ new, level ≤ c.level ∧ c.level < groupLvlNum ∧
      (c.level ≠ level → c.order ≤ maxItemOrder) := by
  intro c hc
  obtain ⟨h1, h2, h3⟩ := hnew c hc
  refine ⟨by omega, h2, fun _ => ?_⟩
  by_cases he : c.level = level + 1
  · have hmem : c.position ∈ rest.bitIndices := by
      rw [← List.mem_reverse, ← hpos]
      exact List.mem_map_of_mem hc
    have hlt := Ones.lt_of_mem_bitIndices hrest hmem
    rw [Call.position, he, functionItemLvl_eq hl] at hlt
    rw [he, groupLvlNum_eq] at h2
    rw [functionItemLvl_eq (by omega)] at hlt
    simp only [maxItemOrder_eq]
    omega
  · exact h3 he

variable (mt fuel) in
/-- **A request is dispatched bit by bit over the levels**: the blocks are the ones of the count, and
    past the first level an order is at most 8. -/
theorem findLevels_peels (hF : Fresh dispatch) (hcomb : para.isCombined = true)
    (hentry : para.isEntry = false) (level nitems : Nat) {n : Nat} (hn : level + n = groupLvlNum)
    (hlast : n = 0 → nitems = 0) (hG : Grown v)
    (hfuel : v.calls.length + nitems.bitIndices.length ≤ fuel) :
    ∃ v' ok new, findLevels fuel dispatch para mt n level nitems v = some (v', ok) ∧
      Peeled dispatch v v' ok new ∧
      (ok = true → new.map Call.position = nitems.bitIndices.reverse ∧
        ∀ c ∈ new, level ≤ c.level ∧ c.level < groupLvlNum ∧
          (c.level ≠ level → c.order ≤ maxItemOrder)) := by
  induction n generalizing level nitems v with
  | zero =>
      refine ⟨v, true, [], rfl, ⟨hG, (List.append_nil _).symm, fun h => by cases h⟩,
        fun _ => ⟨?_, ?_⟩⟩
      · rw [hlast rfl, Nat.bitIndices_zero]
        rfl
      · intro c hc
        cases hc
  | succ n ih =>
      have hle : level ≤ 3 := by rw [groupLvlNum_eq] at hn; omega
      have hunit := functionItemLvl_eq hle
      rw [findLevels, findShift_eq hentry]
      set s := functionItemLvl groupOrderNumShift level
      have hlo : nitems % 2 ^ s < 2 ^ s := Nat.mod_lt _ (Nat.two_pow_pos s)
      have hsplit := Ones.bitIndices_split (nitems / 2 ^ s) hlo
      rw [Nat.div_add_mod'] at hsplit
      have hlen : nitems.bitIndices.length =
          (nitems % 2 ^ s).bitIndices.length + (nitems / 2 ^ s).bitIndices.length := by
        rw [hsplit, List.length_append, List.length_map]
      have hlast' : n = 0 → nitems % 2 ^ s = 0 := by
        intro e
        subst e
        rw [groupLvlNum_eq] at hn
        have : s = 0 := by rw [hunit]; omega
        rw [this, Nat.pow_zero, Nat.mod_one]
      by_cases hz : nitems / 2 ^ s = 0
      · rw [if_pos hz]
        obtain ⟨v', ok, new, hrun, hP, hnew⟩ := @ih _ (level + 1)
          (nitems % 2 ^ s) (by omega) hlast' hG (by omega)
        refine ⟨v', ok, new, hrun, hP, fun hok => ?_⟩
        obtain ⟨hpos, hlvl⟩ := hnew hok
        refine ⟨?_, rest_orders hle hlo hpos hlvl⟩
        rw [hpos, hsplit, hz, Nat.bitIndices_zero, List.map_nil, List.append_nil]
      · rw [if_neg hz]
        have hroom : v.calls.length + (nitems / 2 ^ s).bitIndices.length ≤ fuel := by omega
        obtain ⟨v1, ok, new1, hrun1, hP1, hnew1⟩ := dispatchLoop_peels hF hcomb hentry level hz
          (n := fuel) (by omega) hG hroom
        simp only [hrun1, Option.bind_eq_bind, Option.bind_some]
        cases ok with
        | false => exact ⟨v1, false, new1, rfl, hP1, fun h => by cases h⟩
        | true =>
            rw [if_neg (by decide)]
            have hkeys := hnew1 rfl
            have hlen1 : new1.length = (nitems / 2 ^ s).bitIndices.length := by
              have := congrArg List.length hkeys
              simpa using this
            obtain ⟨v2, ok, new2, hrun2, hP2, hnew2⟩ := @ih v1 (level + 1)
              (nitems % 2 ^ s) (by omega) hlast' hP1.grown (by
                rw [hP1.calls, List.length_append]
                omega)
            refine ⟨v2, ok, new1 ++ new2, hrun2, ⟨hP2.grown, ?_, hP2.failed⟩, fun hok => ?_⟩
            · rw [hP2.calls, hP1.calls, List.append_assoc]
            · obtain ⟨hpos, hlvl⟩ := hnew2 hok
              obtain ⟨hpos1, hlvl1⟩ := digit_positions hkeys
              refine ⟨?_, fun c hc => ?_⟩
              · rw [List.map_append, hpos1, hpos, hsplit, List.reverse_append, List.map_reverse]
              · rcases List.mem_append.mp hc with hc | hc
                · rw [hlvl1 c hc]
                  exact ⟨Nat.le_refl _, by rw [groupLvlNum_eq]; exact Nat.lt_succ_of_le hle,
                    fun h => absurd rfl h⟩
                · exact rest_orders hle hlo hpos hlvl c hc

/-- **A combined request is split exactly and kept whole.** -/
theorem findGroup_combined (hF : Fresh dispatch)
    (hS : ∀ calls st level order, (dispatch calls st level order).2.isSome)
    (hcomb : para.isCombined = true) (hentry : para.isEntry = false) (hfuel : 64 ≤ fuel)
    (r : Reading) (st : State) (mt : MigrationType) {nitems lvl : Nat} (h0 : 0 < nitems)
    (h64 : nitems < 2 ^ 64) (hlvl : lvl < groupLvlNum) :
    ∃ found head, findGroup r fuel dispatch st nitems mt lvl groupLvlNum para = some found ∧
      found.ok = true ∧ found.item = some head ∧
      (found.calls.map fun c => (c.level, c.order)).Nodup ∧
      found.calls.length = nitems.bitIndices.length ∧
      (found.calls.map fun c =>
        2 ^ (c.order + functionItemLvl groupOrderNumShift c.level)).sum = nitems ∧
      (∀ c ∈ found.calls, c.level ≠ lvl → c.order ≤ maxItemOrder) ∧
      CompoundChain found.st (found.calls.map Call.item) head := by
  have hones := Ones.length_bitIndices_le h64
  obtain ⟨v, ok, new, hrun, hP, hnew⟩ := findLevels_peels fuel mt
    (v := ⟨st, [], none⟩) (n := groupLvlNum - lvl) hF hcomb hentry lvl nitems (by omega) (by omega)
    (.inl ⟨rfl, rfl⟩) (by show 0 + _ ≤ fuel; omega)
  have hok : ok = true := by
    cases ok with
    | true => rfl
    | false =>
        obtain ⟨calls, st, level, order, hnone⟩ := hP.failed rfl
        have := hS calls st level order
        rw [hnone] at this
        cases this
  subst hok
  obtain ⟨hpos, hlow⟩ := hnew rfl
  have hcalls : v.calls = new := by rw [hP.calls, List.nil_append]
  have hlen : new.length = nitems.bitIndices.length := by
    have := congrArg List.length hpos
    simpa using this
  obtain ⟨head, hptr, hchain⟩ :
    ∃ head, v.itemPtr = some head ∧ CompoundChain v.st v.blocks head := by
    rcases hP.grown with ⟨hnil, -⟩ | h
    · exfalso
      rw [← hcalls, hnil, Ones.bitIndices_top (by omega), List.length_append] at hlen
      cases hlen
    · exact h
  refine ⟨⟨v.st, true, v.itemPtr, v.calls, []⟩, head, ?_, rfl, hptr, ?_, ?_, ?_, ?_, hchain⟩
  · unfold findGroup
    rw [hentry]
    show (findLevels fuel dispatch para mt (groupLvlNum - lvl) lvl nitems ⟨st, [], none⟩).bind _ = _
    rw [hrun]
    rfl
  · show (v.calls.map _).Nodup
    rw [hcalls]
    refine List.Nodup.of_map
      (fun p : Nat × Nat => p.2 + functionItemLvl groupOrderNumShift p.1) ?_
    rw [List.map_map]
    show (new.map Call.position).Nodup
    rw [hpos, List.nodup_reverse]
    exact Nat.bitIndices_nodup
  · rw [hcalls]
    exact hlen
  · show (v.calls.map _).sum = nitems
    have hsum : (new.map fun c => 2 ^ (c.order + functionItemLvl groupOrderNumShift c.level)) =
        (new.map Call.position).map fun i => 2 ^ i := by
      rw [List.map_map]
      rfl
    rw [hcalls, hsum, hpos, List.map_reverse, List.sum_reverse, Nat.sum_map_two_pow_bitIndices]
  · intro c hc hne
    rw [hcalls] at hc
    exact (hlow c hc).2.2 hne

end Combined

/-- A callback that numbers its blocks, each above all before it. -/
def numbered : Dispatch := fun calls st _ _ =>
  let i := (calls.map Call.item).sum + 1
  (st.modItem i fun x => { x with compoundNode := none, compoundHead := false }, some i)

theorem numbered_fresh : Fresh numbered := by
  have hlt : ∀ calls : List Call, ∀ j ∈ calls.map Call.item, j ≠ (calls.map Call.item).sum + 1 :=
    fun calls j hj => Nat.ne_of_lt (Nat.lt_succ_of_le (List.single_le_sum (by simp) j hj))
  refine ⟨fun calls st level order c hc => ?_, fun calls st level order i hi => ?_⟩
  · unfold numbered
    dsimp only
    rw [State.modItem_items, if_neg (hlt calls _ (List.mem_map_of_mem hc))]
    exact ⟨rfl, rfl⟩
  · obtain rfl := Option.some.inj hi
    refine ⟨fun hm => hlt calls _ hm rfl, ?_, ?_⟩ <;> unfold numbered <;> dsimp only <;>
      rw [State.modItem_items, if_pos rfl]

/-- 513 descriptors from level 2: two blocks, of order 0 on levels 2 and 3. -/
theorem findGroup_two : ∃ found head,
    findGroup .written 64 numbered zeroed 513 .reclaimable 2 groupLvlNum ⟨true, false, false⟩ =
      some found ∧ found.ok = true ∧ found.item = some head ∧
      (found.calls.map fun c => (c.level, c.order)).Nodup ∧
      found.calls.length = (513).bitIndices.length ∧
      (found.calls.map fun c =>
        2 ^ (c.order + functionItemLvl groupOrderNumShift c.level)).sum = 513 ∧
      (∀ c ∈ found.calls, c.level ≠ 2 → c.order ≤ maxItemOrder) ∧
      CompoundChain found.st (found.calls.map Call.item) head :=
  findGroup_combined numbered_fresh (fun _ _ _ _ => rfl) rfl rfl (Nat.le_refl 64) .written zeroed
    .reclaimable (by decide) (by decide) (by decide)

/-! ## 4. A failed request -/

section Cleanup

variable {st : State} {blocks : List Item} {head : Item} {mt : MigrationType}

theorem BlockPlace.congr {st st' : State} {i : Item} (h : BlockPlace st mt i)
    (hf : (st'.items i).flags = (st.items i).flags) (hn : st'.nodes = st.nodes)
    (ht : st'.tables = st.tables) : BlockPlace st' mt i := by
  unfold BlockPlace blockNode blockLvl blockOrder State.nodeOf at h ⊢
  rw [hf, hn, ht]
  exact ⟨by rw [ht]; exact h.base, by rw [ht]; exact h.level⟩

/-- A physical MOVABLE block goes the sparse way, which faults. -/
theorem findGroupReversed_movable (r : Reading) (hoff : (st.items head).onList = none) (fuel : Nat)
    (isVirtual : Bool) : findGroupReversed r fuel st .sparseMovable head isVirtual = none := by
  have hsparse : dequeueGroupSparse st head .sparseMovable = none := by
    unfold dequeueGroupSparse
    split
    · unfold dequeueGroupPrior listDel
      rw [hoff]
      rfl
    · rfl
  unfold findGroupReversed
  cases isVirtual
  · simp only [hsparse, Bool.false_eq_true, if_false, if_true, reduceCtorEq, Option.bind_eq_bind,
      Option.bind_some, Option.bind_none]
  · rfl

/-- As written no block is given back. -/
theorem dequeueGroupMigration_written (mt : MigrationType) (fuel : Nat) (st : State) (head : Item) :
    dequeueGroupMigration .written mt fuel st head = none := by
  cases fuel with
  | zero => rfl
  | succ fuel => rw [dequeueGroupMigration_once, freeGroupMigration_written]; rfl

theorem findGroupReversed_written (hoff : (st.items head).onList = none) (fuel : Nat)
    (isVirtual : Bool) : findGroupReversed .written fuel st mt head isVirtual = none := by
  by_cases hs : mt = .sparseMovable
  · rw [hs]
    exact findGroupReversed_movable .written hoff fuel isVirtual
  · unfold findGroupReversed
    cases isVirtual
    · by_cases hl : mt = .lrutype
      · dsimp only
        rw [if_neg (by decide), Option.bind_eq_bind, Option.bind_some, if_pos hl]
        rfl
      · simp only [hl, hs, Bool.false_eq_true, if_false, dequeueGroupMigration_written,
          Option.bind_eq_bind, Option.bind_some]
    · rfl

end Cleanup

/-- The callback never reports an error. -/
def Succeeds (dispatch : Dispatch) : Prop :=
  ∀ calls st level order, ∃ item, (dispatch calls st level order).2 = some item

/-- The digits of the levels 1 to 3 that are not zero, each with its level; what is above level 1 is
    not masked. -/
def entryDigits (nitems : Nat) : List (Nat × Nat) :=
  let unit := fun level => 2 ^ functionItemLvlPrior groupPriorNumShift level
  [(1, nitems / unit 1), (2, nitems % unit 1 / unit 2), (3, nitems % unit 2 / unit 3)].filter
    fun d => d.2 ≠ 0

/-- The request returns, with one call a digit. -/
def EntryServed (dispatch : Dispatch) (st : State) (nitems : Nat) (mt : MigrationType)
    (para : AllocPara) : Prop :=
  ∃ r fuel found, findGroup r fuel dispatch st nitems mt 0 groupLvlNum para = some found ∧
    (found.calls.map fun c => (c.level, c.order)) = entryDigits nitems

section Entry

variable {fuel : Nat} {dispatch : Dispatch} {para : AllocPara} {mt : MigrationType}

/-- A dispatch that succeeds, with no chain to append to. -/
theorem dispatchOne_single (hd : Succeeds dispatch) (hcomb : para.isCombined = false)
    (level order : Nat) (v : FindVars) :
    ∃ st item, dispatchOne fuel dispatch para level order v =
      some (⟨st, v.calls ++ [⟨level, order, item⟩], some (v.itemPtr.getD item)⟩, true) := by
  obtain ⟨item, hitem⟩ := hd v.calls v.st level order
  refine ⟨(dispatch v.calls v.st level order).1, item, ?_⟩
  unfold dispatchOne
  generalize dispatch v.calls v.st level order = d at hitem
  obtain ⟨st, res⟩ := d
  subst hitem
  exact if_neg fun h => by
    rw [hcomb] at h
    cases h.1

/-- A dispatch that succeeds is never reported as failed, whatever becomes of the append. -/
theorem dispatchOne_succeeds (hd : Succeeds dispatch) {level order : Nat} {v v' : FindVars}
    {ok : Bool} (h : dispatchOne fuel dispatch para level order v = some (v', ok)) : ok = true := by
  obtain ⟨item, hitem⟩ := hd v.calls v.st level order
  unfold dispatchOne at h
  generalize dispatch v.calls v.st level order = d at hitem h
  obtain ⟨st, res⟩ := d
  subst hitem
  dsimp only at h
  split at h
  · obtain ⟨st', -, he⟩ := Option.map_eq_some_iff.mp h
    exact (congrArg Prod.snd he).symm
  · exact (congrArg Prod.snd (Option.some.inj h)).symm

/-- An entry uses its digit and keeps it. -/
theorem lvlOrderOf_entry (hentry : para.isEntry = true) (lvlNitem : Nat) :
    lvlOrderOf para lvlNitem = (lvlNitem % 2 ^ 32, lvlNitem) := if_pos hentry

/-- **The loop over an entry's digit does not return**: no round takes anything from the digit. -/
theorem dispatchLoop_entry (hd : Succeeds dispatch) (hentry : para.isEntry = true) (level : Nat)
    {lvlNitem : Nat} (h0 : lvlNitem ≠ 0) (n : Nat) (v : FindVars) :
    dispatchLoop fuel dispatch para level n lvlNitem v = none := by
  induction n generalizing v with
  | zero => rfl
  | succ n ih =>
      rw [dispatchLoop, lvlOrderOf_entry hentry]
      dsimp only
      cases hone : dispatchOne fuel dispatch para level (lvlNitem % 2 ^ 32) v with
      | none => rfl
      | some q =>
          obtain ⟨v1, ok⟩ := q
          obtain rfl := dispatchOne_succeeds hd hone
          simp only [Option.bind_eq_bind, Option.bind_some, reduceCtorEq, if_false, if_neg h0]
          exact ih v1

/-- It goes on: after any number of rounds as many more items are dispatched, all of the one order,
    and the digit is as it was. -/
theorem dispatchLoop_entry_rounds (hd : Succeeds dispatch) (hentry : para.isEntry = true)
    (hcomb : para.isCombined = false) (level : Nat) {lvlNitem : Nat} (h0 : lvlNitem ≠ 0)
    (rounds : Nat) (v : FindVars) :
    ∃ v' new, (∀ n, dispatchLoop fuel dispatch para level (n + rounds) lvlNitem v =
        dispatchLoop fuel dispatch para level n lvlNitem v') ∧
      v'.calls = v.calls ++ new ∧ new.length = rounds ∧
      ∀ c ∈ new, c.level = level ∧ c.order = lvlNitem % 2 ^ 32 := by
  induction rounds generalizing v with
  | zero => exact ⟨v, [], fun _ => rfl, (List.append_nil _).symm, rfl, fun _ hc => by cases hc⟩
  | succ rounds ih =>
      obtain ⟨st, item, hone⟩ :=
        @dispatchOne_single fuel _ _ hd hcomb level (lvlNitem % 2 ^ 32) v
      obtain ⟨v', new, hrun, hcalls, hlen, hnew⟩ :=
        ih ⟨st, v.calls ++ [⟨level, lvlNitem % 2 ^ 32, item⟩], some (v.itemPtr.getD item)⟩
      refine ⟨v', ⟨level, lvlNitem % 2 ^ 32, item⟩ :: new, fun n => ?_, ?_, ?_, ?_⟩
      · rw [← hrun n, ← Nat.add_assoc, dispatchLoop, lvlOrderOf_entry hentry]
        simp only [hone, Option.bind_eq_bind, Option.bind_some, reduceCtorEq, if_false, if_neg h0]
      · rw [hcalls, List.append_assoc, List.singleton_append]
      · rw [List.length_cons, hlen]
      · intro c hc
        rcases List.mem_cons.mp hc with rfl | hc
        · exact ⟨rfl, rfl⟩
        · exact hnew c hc

/-- Some level of the request has a digit: the unit of level 3 is one. -/
theorem findLevels_entry (hd : Succeeds dispatch) (hentry : para.isEntry = true) {n level : Nat}
    (hn : level + n = groupLvlNum) (hpos : 0 < n) {nitems : Nat} (h0 : nitems ≠ 0) (v : FindVars) :
    findLevels fuel dispatch para mt n level nitems v = none := by
  induction n generalizing level with
  | zero => cases hpos
  | succ n ih =>
      have hshift : findShift para mt level = functionItemLvlPrior groupPriorNumShift level :=
        if_pos hentry
      rw [findLevels, hshift]
      by_cases hdigit : nitems / 2 ^ functionItemLvlPrior groupPriorNumShift level = 0
      · have hlt := (Nat.div_eq_zero_iff.mp hdigit).resolve_left (Nat.two_pow_pos _).ne'
        have hlast : 0 < n := by
          rcases Nat.eq_zero_or_pos n with rfl | h
          · rw [groupLvlNum_eq] at hn
            obtain rfl : level = 3 := by omega
            exact absurd hlt (Nat.not_lt.mpr (Nat.one_le_iff_ne_zero.mpr h0))
          · exact h
        simp only [if_pos hdigit, Nat.mod_eq_of_lt hlt]
        exact ih (by omega) hlast
      · simp only [if_neg hdigit, dispatchLoop_entry hd hentry level hdigit]
        rfl

theorem findGroup_entry (hd : Succeeds dispatch) (hentry : para.isEntry = true) {nitems : Nat}
    (h0 : nitems ≠ 0) (r : Reading) (st : State) :
    findGroup r fuel dispatch st nitems mt 0 groupLvlNum para = none := by
  unfold findGroup
  simp only [hentry, if_true, findLevels_entry hd hentry (show 0 + 1 + (groupLvlNum - (0 + 1)) =
    groupLvlNum from rfl) (by decide) h0]
  rfl

end Entry

/-- **No request of an entry returns**, however small. -/
theorem entry_never_served {dispatch : Dispatch} {para : AllocPara} (hd : Succeeds dispatch)
    (hentry : para.isEntry = true) {nitems : Nat} (h0 : 0 < nitems) (st : State)
    (mt : MigrationType) : ¬ EntryServed dispatch st nitems mt para := by
  rintro ⟨r, fuel, found, hrun, -⟩
  rw [findGroup_entry hd hentry h0.ne'] at hrun
  cases hrun

theorem numbered_succeeds : Succeeds numbered := fun _ _ _ _ => ⟨_, rfl⟩

/-- The lowest priority of level 3: one call is due. -/
theorem entry_one_due : entryDigits 1 = [(3, 1)] ∧
    ¬ EntryServed numbered zeroed 1 .sparseMovable ⟨false, false, true⟩ :=
  ⟨rfl, entry_never_served numbered_succeeds rfl (by decide) _ _⟩

/-- Priority 1 of level 2 and no other digit: no fuel is enough. -/
theorem entry_level_2_stuck : entryDigits 8 = [(2, 1)] ∧
    ¬ ∃ r fuel found, findGroup r fuel numbered zeroed 8 .sparseMovable 0 groupLvlNum
        ⟨false, false, true⟩ = some found ∧
      (found.calls.map fun c => (c.level, c.order)) = entryDigits 8 := by
  refine ⟨rfl, ?_⟩
  rintro ⟨r, fuel, found, hrun, -⟩
  rw [findGroup_entry numbered_succeeds rfl (by decide)] at hrun
  cases hrun

end TensorAlloc
