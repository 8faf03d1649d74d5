/-
  File:      TensorAlloc/Postprocess.lean
  Subject:   `postprocess_node_struct`: the parameters of a request, written into its item.

  * `itemStructDecl`, `inParasDecl` -- the two declarations as they stand: the parameters of an item
    are nested in unions only, so all of them lie at the item's seventh word;
  * `postprocessNodeStruct` -- the writes in their order;
  * **`postprocess_readback_iff`** -- the last write is what every member reads.
-/
import TensorAlloc.Base.Layout
import TensorAlloc.Ops

namespace TensorAlloc

open CLayout

/-! ## 1. The declarations -/

/-- The members of `struct item_struct`. -/
inductive ItemMember where
  | word0 | nodePrev | nodeNext | compoundNode | compoundHnode
  | flags
  | word1 | next | prev | sliceHead | sliceStat | compoundHead | sliceRef | assets
  | word2 | vAgingHead | vLazyAllocat | pSwitchTime | vOwnership | pYieldTime | pBackupHead
  | vDeadlineArrive | vRefCount | pLastArrive | pRmap | vSporadicPeriod | vMapRight | pMsp
  deriving DecidableEq, Repr

/-- `struct item_struct`. -/
def itemStructDecl : Decl ItemMember :=
  .struct [
    .union [.array .word0 2, .struct [.word .nodePrev, .word .nodeNext],
      .struct [.word .compoundNode, .word .compoundHnode]],
    .word .flags,
    .union [.array .word1 2, .struct [.word .next, .word .prev],
      .struct [
        .union [.struct [.word .sliceHead, .word .sliceStat], .struct [.word .compoundHead]],
        .union [.word .sliceRef]],
      .struct [.word .assets]],
    .union [.array .word2 3,
      .union [
        .union [.word .vAgingHead, .word .vLazyAllocat, .word .pSwitchTime],
        .union [.word .vOwnership, .word .pYieldTime, .word .pBackupHead]],
      .union [.word .vDeadlineArrive, .word .vRefCount, .word .pLastArrive, .word .pRmap],
      .union [.word .vSporadicPeriod, .word .vMapRight, .word .pMsp]]]

/-- The members of `struct in_paras`; `allocat_size` and `affinity` are declared twice. -/
inductive ParaMember where
  | sporadicPeriod | delayTime | deadlineTime | timeAllocatSize
  | switchTime | arriveTime | yieldTime
  | basePrior | maxPrior | timeAffinity | ptimestamp
  | mapProt | memoryAttr | ownership | memoryAllocatSize
  | memoryAffinity | pbaseAddr
  deriving DecidableEq, Repr

/-- `struct in_paras`. -/
def inParasDecl : Decl ParaMember :=
  .union [
    .struct [.union [
      .struct [.word .sporadicPeriod, .word .delayTime, .word .deadlineTime, .word .timeAllocatSize],
      .struct [.word .switchTime, .word .arriveTime, .word .yieldTime],
      .struct [.word .basePrior, .word .maxPrior, .word .timeAffinity, .word .ptimestamp]]],
    .struct [.union [
      .struct [.word .mapProt, .word .memoryAttr, .word .ownership, .word .memoryAllocatSize],
      .struct [],
      .struct [.word .memoryAffinity, .word .pbaseAddr]]]]

def itemStruct : Layout ItemMember where
  decl := itemStructDecl
  placed m := by cases m <;> rfl

def inParas : Layout ParaMember where
  decl := inParasDecl
  placed m := by cases m <;> rfl

/-! ## 2. The writes -/

/-- An object as the words it is made of. -/
abbrev Words := Nat → Word

/-- The rights of a virtual memory item: `map_prot` above `memory_attr`, 16 bits each. -/
def packedRights (paras : Words) : Word :=
  ((inParas.load .mapProt paras &&& 0xffff#64) <<< 16) |||
    (inParas.load .memoryAttr paras &&& 0xffff#64)

/-- `postprocess_node_struct`. -/
def postprocessNodeStruct (node : NodeStruct) (item paras : Words) (isVirtual : Bool) : Words :=
  if isVirtual then
    if node.dim = dimTime then
      let item := itemStruct.store .vDeadlineArrive (inParas.load .deadlineTime paras) item
      let item := itemStruct.store .vLazyAllocat (inParas.load .delayTime paras) item
      itemStruct.store .vSporadicPeriod (inParas.load .sporadicPeriod paras) item
    else if node.dim = dimMemory then
      let item := itemStruct.store .vMapRight (packedRights paras) item
      let item := itemStruct.store .vOwnership (inParas.load .ownership paras) item
      itemStruct.store .vRefCount (itemStruct.load .vRefCount item + 1) item
    else item
  else
    if node.dim = dimTime then
      let item := itemStruct.store .pLastArrive (inParas.load .arriveTime paras) item
      let item := itemStruct.store .pSwitchTime (inParas.load .switchTime paras) item
      let item := itemStruct.store .pYieldTime (inParas.load .yieldTime paras) item
      itemStruct.store .pMsp (inParas.load .maxPrior paras) item
    else item

/-! ## 3. What is read back -/

/-- The parameters of the item's kind read as they were given. -/
def ParasReadBack (node : NodeStruct) (item paras item' : Words) (isVirtual : Bool) : Prop :=
  if isVirtual then
    if node.dim = dimTime then
      itemStruct.load .vDeadlineArrive item' = inParas.load .deadlineTime paras ∧
        itemStruct.load .vLazyAllocat item' = inParas.load .delayTime paras ∧
        itemStruct.load .vSporadicPeriod item' = inParas.load .sporadicPeriod paras
    else if node.dim = dimMemory then
      itemStruct.load .vMapRight item' = packedRights paras ∧
        itemStruct.load .vOwnership item' = inParas.load .ownership paras ∧
        itemStruct.load .vRefCount item' = itemStruct.load .vRefCount item + 1
    else True
  else
    if node.dim = dimTime then
      itemStruct.load .pLastArrive item' = inParas.load .arriveTime paras ∧
        itemStruct.load .pSwitchTime item' = inParas.load .switchTime paras ∧
        itemStruct.load .pYieldTime item' = inParas.load .yieldTime paras ∧
        itemStruct.load .pMsp item' = inParas.load .maxPrior paras
    else True

/-- The members before the parameters. -/
def frontMembers : List ItemMember := [.nodePrev, .nodeNext, .flags, .next, .prev]

/-- The parameters read back, and what is not a parameter is unchanged. -/
def ReadBack (node : NodeStruct) (item paras : Words) (isVirtual : Bool) : Prop :=
  let item' := postprocessNodeStruct node item paras isVirtual
  ParasReadBack node item paras item' isVirtual ∧
    ∀ m ∈ frontMembers, itemStruct.load m item' = itemStruct.load m item

/-- The values given that share the word are equal; of a virtual memory item they cannot be. -/
def SharedWord (node : NodeStruct) (paras : Words) (isVirtual : Bool) : Prop :=
  if isVirtual then
    if node.dim = dimTime then
      inParas.load .deadlineTime paras = inParas.load .sporadicPeriod paras ∧
        inParas.load .delayTime paras = inParas.load .sporadicPeriod paras
    else node.dim ≠ dimMemory
  else
    node.dim = dimTime → inParas.load .switchTime paras = inParas.load .arriveTime paras ∧
      inParas.load .yieldTime paras = inParas.load .arriveTime paras

/-- A parameter of an item. -/
def itemParas : List ItemMember :=
  [.vLazyAllocat, .pSwitchTime, .vOwnership, .pYieldTime, .vDeadlineArrive, .vRefCount, .pLastArrive,
    .vSporadicPeriod, .vMapRight, .pMsp]

/-- **All parameters are one word.** -/
theorem itemParas_offset : ∀ m ∈ itemParas, itemStruct.offset m = 6 := by decide

theorem frontMembers_offset : ∀ m ∈ frontMembers, itemStruct.offset m < 6 := by decide

section ReadBack

variable {m m' : ItemMember} {item : Words} (v : Word)

/-- Every parameter reads the last one written. -/
theorem load_store_para (h : m ∈ itemParas) (h' : m' ∈ itemParas) :
    itemStruct.load m (itemStruct.store m' v item) = v := by
  rw [Layout.load_store, itemParas_offset m h, itemParas_offset m' h', if_pos rfl]

/-- A parameter leaves the rest. -/
theorem load_store_front (h : m ∈ frontMembers) (h' : m' ∈ itemParas) :
    itemStruct.load m (itemStruct.store m' v item) = itemStruct.load m item := by
  rw [Layout.load_store, itemParas_offset m' h', if_neg (Nat.ne_of_lt (frontMembers_offset m h))]

end ReadBack

/-- **Nothing else is touched**, whatever the item and the parameters. -/
theorem postprocess_front (node : NodeStruct) (item paras : Words) (isVirtual : Bool) :
    ∀ m ∈ frontMembers,
      itemStruct.load m (postprocessNodeStruct node item paras isVirtual) =
        itemStruct.load m item := by
  intro m hm
  unfold postprocessNodeStruct
  dsimp only
  split
  · split
    · rw [load_store_front _ hm (by decide), load_store_front _ hm (by decide),
        load_store_front _ hm (by decide)]
    · split
      · rw [load_store_front _ hm (by decide), load_store_front _ hm (by decide),
          load_store_front _ hm (by decide)]
      · rfl
  · split
    · rw [load_store_front _ hm (by decide), load_store_front _ hm (by decide),
        load_store_front _ hm (by decide), load_store_front _ hm (by decide)]
    · rfl

/-- **The parameters read back exactly where the values that share their word are equal.** -/
theorem postprocess_readback_iff (node : NodeStruct) (item paras : Words) (isVirtual : Bool) :
    ReadBack node item paras isVirtual ↔ SharedWord node paras isVirtual := by
  have hfront := postprocess_front node item paras isVirtual
  unfold ReadBack SharedWord
  refine (and_iff_left hfront).trans ?_
  unfold ParasReadBack postprocessNodeStruct
  cases isVirtual with
  | true =>
      simp only [if_true]
      by_cases ht : node.dim = dimTime
      · simp only [if_pos ht]
        rw [load_store_para _ (by decide) (by decide), load_store_para _ (by decide) (by decide),
          load_store_para _ (by decide) (by decide)]
        constructor
        · exact fun h => ⟨h.1.symm, h.2.1.symm⟩
        · exact fun h => ⟨h.1.symm, h.2.symm, rfl⟩
      · simp only [if_neg ht]
        by_cases hm : node.dim = dimMemory
        · -- the owner is counted up as the references are
          simp only [if_pos hm]
          rw [load_store_para _ (by decide) (by decide), load_store_para _ (by decide) (by decide),
            load_store_para _ (by decide) (by decide), load_store_para _ (by decide) (by decide)]
          refine iff_of_false (fun h => ?_) (fun h => h hm)
          have hone := congrArg (fun w => w - inParas.load .ownership paras) h.2.1
          simp at hone
        · simp only [if_neg hm]
          exact iff_of_true trivial hm
  | false =>
      simp only [Bool.false_eq_true, if_false]
      by_cases ht : node.dim = dimTime
      · have hmax : inParas.load .maxPrior paras = inParas.load .arriveTime paras := rfl
        simp only [if_pos ht]
        rw [load_store_para _ (by decide) (by decide), load_store_para _ (by decide) (by decide),
          load_store_para _ (by decide) (by decide), load_store_para _ (by decide) (by decide), hmax]
        constructor
        · exact fun h _ => ⟨h.2.1.symm, h.2.2.1.symm⟩
        · exact fun h => ⟨rfl, (h ht).1.symm, (h ht).2.symm, rfl⟩
      · simp only [if_neg ht]
        exact iff_of_true trivial fun h => absurd h ht

/-- A period of 10, a delay of 20 and a deadline of 30: the item of a virtual time node has the
    period for its deadline. -/
theorem postprocess_deadline_lost :
    let paras : Words := fun i => [10#64, 20#64, 30#64].getD i 0#64
    let item' := postprocessNodeStruct (zeroed.nodes (.vir 0)) (fun _ => 0#64) paras true
    inParas.load .deadlineTime paras = 30#64 ∧ itemStruct.load .vDeadlineArrive item' = 10#64 ∧
      ¬ ReadBack (zeroed.nodes (.vir 0)) (fun _ => 0#64) paras true := by
  refine ⟨rfl, rfl, fun h => ?_⟩
  have hdeadline : (10#64 : Word) = 30#64 := h.1.1
  exact absurd hdeadline (by decide)

end TensorAlloc
