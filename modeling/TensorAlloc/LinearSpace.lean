/-
  File:      TensorAlloc/LinearSpace.lean
  Subject:   `__init_linear_space`: the boot-time space of the nodes, handed out behind a cursor each.

  * `initLinearSpace` -- the cursor is moved before the limit is tested. The result is `none` for
    `return NULL` alone: the space starts at address 0, which the first request of a node is given;
  * `LinearCall` -- GHOST: a request with the cursor before and after it;
  * **`linear_space_iff`** -- one refusal is enough to lose what the space promises: all is well
    exactly where there is none.
-/
import Mathlib.Logic.Function.Basic
import TensorAlloc.Base.BitField
import TensorAlloc.Struct

namespace TensorAlloc

/-! ## 1. The cursors -/

def nodeReservedRangeBase : Nat := 0

/-- `ROUND_UP`. -/
def roundUp (x n : Word) : Word := (x + n - 1#64) &&& ~~~(n - 1#64)

/-- `__init_linear_space` over `phy_init_linear_ptr`. -/
def initLinearSpace (ptrs : Nat → Word) (nodeId : Nat) (len : Word) : (Nat → Word) × Option Word :=
  let cursor := if ptrs nodeId = 0#64 then BitVec.ofNat 64 nodeReservedRangeBase else ptrs nodeId
  let ptr := roundUp cursor 8#64
  let next := ptr + roundUp len 8#64
  (Function.update ptrs nodeId next, if nodeReservedRangeSize ≤ next.toNat then none else some ptr)

structure LinearCall where
  nodeId : Nat
  len : Word
  before : Word
  after : Word
  result : Option Word

/-- The requests in order, each of a node. -/
def linearCalls (ptrs : Nat → Word) : List (Nat × Word) → List LinearCall
  | [] => []
  | (nodeId, len) :: requests =>
      let ptrs' := (initLinearSpace ptrs nodeId len).1
      ⟨nodeId, len, ptrs nodeId, ptrs' nodeId, (initLinearSpace ptrs nodeId len).2⟩ ::
        linearCalls ptrs' requests

/-- The calls of one node. -/
def nodeCalls (ptrs : Nat → Word) (nodeId : Nat) (requests : List (Nat × Word)) : List LinearCall :=
  (linearCalls ptrs requests).filter fun c => c.nodeId = nodeId

/-- The cursors before the first request. -/
def zeroPtrs : Nat → Word := fun _ => 0#64

/-! ## 2. What the space promises -/

/-- A length rounded up to 8. -/
def roundedLen (len : Word) : Nat := (len.toNat + 7) / 8 * 8

/-- There is room for the length behind everything granted. -/
def FitsBehind (calls : List LinearCall) (len : Word) : Prop :=
  ∃ start, 8 ∣ start ∧ start + len.toNat ≤ nodeReservedRangeBase + nodeReservedRangeSize ∧
    ∀ c ∈ calls, ∀ ptr, c.result = some ptr → ptr.toNat + c.len.toNat ≤ start

/-- The regions granted are aligned, inside the space and apart, a refusal leaves the cursor, and what
    fits is granted. -/
structure LinearRight (calls : List LinearCall) : Prop where
  inside : ∀ c ∈ calls, ∀ ptr, c.result = some ptr → 8 ∣ ptr.toNat ∧
    nodeReservedRangeBase ≤ ptr.toNat ∧
    ptr.toNat + c.len.toNat ≤ nodeReservedRangeBase + nodeReservedRangeSize
  disjoint : calls.Pairwise fun c c' => ∀ ptr ptr', c.result = some ptr → c'.result = some ptr' →
    ptr.toNat + c.len.toNat ≤ ptr'.toNat ∨ ptr'.toNat + c'.len.toNat ≤ ptr.toNat
  refused : ∀ c ∈ calls, c.result = none → c.after = c.before
  granted : ∀ before c after, calls = before ++ c :: after → FitsBehind before c.len →
    c.result ≠ none

/-- What the requests of a node take. -/
def requested (nodeId : Nat) (requests : List (Nat × Word)) : Nat :=
  ((requests.filter fun q => q.1 = nodeId).map fun q => roundedLen q.2).sum

/-! ## 3. One request -/

theorem toNat_roundUp {x : Word} (h : x.toNat + 7 < 2 ^ 64) :
    (roundUp x 8#64).toNat = (x.toNat + 7) / 8 * 8 := by
  have hadd : (x + 8#64 - 1#64).toNat = x.toNat + 7 := by bv_omega
  have hmask : ~~~(8#64 - 1#64) = ~~~BitField.mask 3 := rfl
  unfold roundUp
  rw [hmask, BitField.toNat_and_not_mask (by decide), hadd]
  rfl

section OneRequest

variable {ptrs : Nat → Word} {nodeId : Nat} {len : Word}

/-- A cursor that has not left the space. -/
def InSpace (cursor : Word) : Prop := 8 ∣ cursor.toNat ∧ cursor.toNat < nodeReservedRangeSize

/-- **One request in the space**: the cursor moves by the rounded length, granted or not. -/
theorem initLinearSpace_inSpace (hcur : InSpace (ptrs nodeId)) (hlen : len.toNat < 2 ^ 63) :
    ((initLinearSpace ptrs nodeId len).1 nodeId).toNat = (ptrs nodeId).toNat + roundedLen len ∧
      (initLinearSpace ptrs nodeId len).2 =
        if nodeReservedRangeSize ≤ (ptrs nodeId).toNat + roundedLen len then none
        else some (ptrs nodeId) := by
  obtain ⟨h8, hlt⟩ := hcur
  simp only [nodeReservedRangeSize] at hlt ⊢
  have hbase : (if ptrs nodeId = 0#64 then BitVec.ofNat 64 nodeReservedRangeBase
      else ptrs nodeId) = ptrs nodeId := by
    split
    · next h => exact h.symm
    · rfl
  have hptr : roundUp (ptrs nodeId) 8#64 = ptrs nodeId := by
    apply BitVec.eq_of_toNat_eq
    rw [toNat_roundUp (by omega)]
    omega
  have hround : (roundUp len 8#64).toNat = roundedLen len := toNat_roundUp (by omega)
  have hle : roundedLen len ≤ 2 ^ 63 := by
    unfold roundedLen
    omega
  have hnext : (ptrs nodeId + roundUp len 8#64).toNat = (ptrs nodeId).toNat + roundedLen len := by
    rw [BitVec.toNat_add, hround]
    exact Nat.mod_eq_of_lt (by omega)
  unfold initLinearSpace
  simp only [hbase, hptr, hnext, Function.update_self, nodeReservedRangeSize]
  exact ⟨trivial, rfl⟩

/-- Another node's cursor stays. -/
theorem initLinearSpace_other {nodeId' : Nat} (h : nodeId ≠ nodeId') :
    (initLinearSpace ptrs nodeId' len).1 nodeId = ptrs nodeId :=
  Function.update_of_ne h _ _

end OneRequest

/-! ## 4. A run of requests -/

section Run

variable {ptrs : Nat → Word} {nodeId : Nat}

theorem requested_cons_self (len : Word) (requests : List (Nat × Word)) :
    requested nodeId ((nodeId, len) :: requests) = roundedLen len + requested nodeId requests := by
  unfold requested
  rw [List.filter_cons, if_pos (decide_eq_true rfl), List.map_cons, List.sum_cons]

theorem requested_cons_other {nodeId' : Nat} (h : nodeId' ≠ nodeId) (len : Word)
    (requests : List (Nat × Word)) :
    requested nodeId ((nodeId', len) :: requests) = requested nodeId requests := by
  unfold requested
  rw [List.filter_cons, if_neg fun e => h (of_decide_eq_true e)]

theorem nodeCalls_cons_self (len : Word) (requests : List (Nat × Word)) :
    nodeCalls ptrs nodeId ((nodeId, len) :: requests) =
      ⟨nodeId, len, ptrs nodeId, (initLinearSpace ptrs nodeId len).1 nodeId,
        (initLinearSpace ptrs nodeId len).2⟩ ::
      nodeCalls (initLinearSpace ptrs nodeId len).1 nodeId requests := by
  unfold nodeCalls
  rw [linearCalls, List.filter_cons, if_pos (decide_eq_true rfl)]

theorem nodeCalls_cons_other {nodeId' : Nat} (h : nodeId' ≠ nodeId) (len : Word)
    (requests : List (Nat × Word)) :
    nodeCalls ptrs nodeId ((nodeId', len) :: requests) =
      nodeCalls (initLinearSpace ptrs nodeId' len).1 nodeId requests := by
  unfold nodeCalls
  rw [linearCalls, List.filter_cons, if_neg fun e => h (of_decide_eq_true e)]

theorem roundedLen_le (len : Word) : len.toNat ≤ roundedLen len := by
  unfold roundedLen
  omega

theorem dvd_roundedLen (len : Word) : 8 ∣ roundedLen len := Nat.dvd_mul_left 8 _

/-- Every call is granted, between `base` and `limit`, each behind the one before. -/
structure Laid (base limit : Nat) (calls : List LinearCall) : Prop where
  granted : ∀ c ∈ calls, ∃ ptr, c.result = some ptr ∧ 8 ∣ ptr.toNat ∧ base ≤ ptr.toNat ∧
    ptr.toNat + c.len.toNat ≤ limit
  ordered : calls.Pairwise fun c c' => ∀ ptr ptr', c.result = some ptr → c'.result = some ptr' →
    ptr.toNat + c.len.toNat ≤ ptr'.toNat

/-- A region behind the cursor, then the rest behind it. -/
theorem Laid.cons {base base' limit : Nat} {calls : List LinearCall} (h : Laid base' limit calls)
    {c : LinearCall} {ptr : Word} (hresult : c.result = some ptr) (h8 : 8 ∣ ptr.toNat)
    (hbase : base ≤ ptr.toNat) (hnext : ptr.toNat + c.len.toNat ≤ base') (hle : base ≤ base')
    (hlimit : base' ≤ limit) : Laid base limit (c :: calls) where
  granted c' hc' := by
    rcases List.mem_cons.mp hc' with rfl | hc'
    · exact ⟨ptr, hresult, h8, hbase, hnext.trans hlimit⟩
    · obtain ⟨ptr', h1, h2, h3, h4⟩ := h.granted c' hc'
      exact ⟨ptr', h1, h2, hle.trans h3, h4⟩
  ordered := by
    refine List.pairwise_cons.mpr ⟨fun c' hc' q q' hq hq' => ?_, h.ordered⟩
    obtain ⟨ptr', h1, -, h3, -⟩ := h.granted c' hc'
    rw [hresult, Option.some.injEq] at hq
    rw [h1, Option.some.injEq] at hq'
    subst hq hq'
    exact hnext.trans h3

/-- The cursor of a granted request is in the space again. -/
theorem InSpace.next {len : Word} (hcur : InSpace (ptrs nodeId)) (hlen : len.toNat < 2 ^ 63)
    (hfit : (ptrs nodeId).toNat + roundedLen len < nodeReservedRangeSize) :
    InSpace ((initLinearSpace ptrs nodeId len).1 nodeId) := by
  unfold InSpace
  rw [(initLinearSpace_inSpace hcur hlen).1]
  exact ⟨Nat.dvd_add hcur.1 (dvd_roundedLen len), hfit⟩

/-- **Where all fits, all is granted in a row.** -/
theorem nodeCalls_laid {requests : List (Nat × Word)} (hcur : InSpace (ptrs nodeId))
    (hlen : ∀ q ∈ requests, q.2.toNat < 2 ^ 63)
    (hfits : (ptrs nodeId).toNat + requested nodeId requests < nodeReservedRangeSize) :
    Laid (ptrs nodeId).toNat nodeReservedRangeSize (nodeCalls ptrs nodeId requests) := by
  induction requests generalizing ptrs with
  | nil => exact ⟨fun c hc => absurd hc List.not_mem_nil, List.Pairwise.nil⟩
  | cons q requests ih =>
      obtain ⟨nodeId', len⟩ := q
      have hlen' : len.toNat < 2 ^ 63 := hlen (nodeId', len) List.mem_cons_self
      have hrest := fun q hq => hlen q (List.mem_cons_of_mem _ hq)
      by_cases hid : nodeId' = nodeId
      · subst hid
        rw [requested_cons_self] at hfits
        have hround := roundedLen_le len
        obtain ⟨hnext, hresult⟩ := initLinearSpace_inSpace hcur hlen'
        have hih := ih (hcur.next hlen' (by omega)) hrest (by omega)
        rw [if_neg (by omega)] at hresult
        rw [hnext] at hih
        rw [nodeCalls_cons_self]
        exact hih.cons hresult hcur.1 (Nat.le_refl _) (Nat.add_le_add_left hround _)
          (Nat.le_add_right _ _) (by omega)
      · rw [requested_cons_other hid] at hfits
        have hsame := @initLinearSpace_other ptrs nodeId len nodeId' (Ne.symm hid)
        rw [← hsame] at hcur hfits ⊢
        rw [nodeCalls_cons_other hid]
        exact ih hcur hrest hfits

/-- **The first refusal moves the cursor**, and there is one where not all fits. -/
theorem nodeCalls_refusal {requests : List (Nat × Word)} (hcur : InSpace (ptrs nodeId))
    (hlen : ∀ q ∈ requests, q.2.toNat < 2 ^ 63)
    (hover : nodeReservedRangeSize ≤ (ptrs nodeId).toNat + requested nodeId requests) :
    ∃ c ∈ nodeCalls ptrs nodeId requests, c.result = none ∧ c.after ≠ c.before := by
  induction requests generalizing ptrs with
  | nil => exact absurd hcur.2 (Nat.not_lt.mpr hover)
  | cons q requests ih =>
      obtain ⟨nodeId', len⟩ := q
      have hlen' : len.toNat < 2 ^ 63 := hlen (nodeId', len) List.mem_cons_self
      have hrest := fun q hq => hlen q (List.mem_cons_of_mem _ hq)
      by_cases hid : nodeId' = nodeId
      · subst hid
        rw [requested_cons_self] at hover
        obtain ⟨hnext, hresult⟩ := initLinearSpace_inSpace hcur hlen'
        rw [nodeCalls_cons_self]
        by_cases hfit : (ptrs nodeId').toNat + roundedLen len < nodeReservedRangeSize
        · obtain ⟨c, hc, h⟩ := ih (hcur.next hlen' hfit) hrest (by omega)
          exact ⟨c, List.mem_cons_of_mem _ hc, h⟩
        · rw [if_pos (Nat.le_of_not_lt hfit)] at hresult
          refine ⟨_, List.mem_cons_self, hresult, fun e => ?_⟩
          -- the cursor has left the space
          have hsame := congrArg BitVec.toNat e
          have hlt := hcur.2
          simp only [hnext] at hsame
          omega
      · rw [requested_cons_other hid] at hover
        have hsame := @initLinearSpace_other ptrs nodeId len nodeId' (Ne.symm hid)
        rw [← hsame] at hcur hover
        rw [nodeCalls_cons_other hid]
        exact ih hcur hrest hover

end Run

/-- **The space keeps its promises exactly where all that is requested of a node stays below its end**,
    each length rounded up to 8: a refused request moves the cursor as a granted one does. -/
theorem linear_space_iff (nodeId : Nat) {requests : List (Nat × Word)}
    (hlen : ∀ q ∈ requests, q.2.toNat < 2 ^ 63) :
    LinearRight (nodeCalls zeroPtrs nodeId requests) ↔
      requested nodeId requests < nodeReservedRangeSize := by
  have hzero : InSpace (zeroPtrs nodeId) := ⟨Nat.dvd_zero 8, Nat.two_pow_pos 20⟩
  have hstart : (zeroPtrs nodeId).toNat + requested nodeId requests = requested nodeId requests :=
    Nat.zero_add _
  constructor
  · intro h
    by_contra hover
    obtain ⟨c, hc, hnone, hmoved⟩ :=
      nodeCalls_refusal hzero hlen (hstart.symm ▸ Nat.le_of_not_lt hover)
    exact hmoved (h.refused c hc hnone)
  · intro hfits
    obtain ⟨hgranted, hordered⟩ := nodeCalls_laid hzero hlen (hstart.symm ▸ hfits)
    -- no call is refused
    have hsome : ∀ c ∈ nodeCalls zeroPtrs nodeId requests, c.result ≠ none := by
      intro c hc hnone
      obtain ⟨ptr, hptr, -⟩ := hgranted c hc
      rw [hnone] at hptr
      cases hptr
    constructor
    · intro c hc ptr hptr
      obtain ⟨ptr', hptr', h8, -, hend⟩ := hgranted c hc
      rw [hptr, Option.some.injEq] at hptr'
      subst hptr'
      exact ⟨h8, Nat.zero_le _, (Nat.zero_add nodeReservedRangeSize).symm ▸ hend⟩
    · exact hordered.imp fun h ptr ptr' hptr hptr' => Or.inl (h ptr ptr' hptr hptr')
    · exact fun c hc hnone => absurd hnone (hsome c hc)
    · exact fun before c after hcalls _ =>
        hsome c (hcalls ▸ List.mem_append_right _ List.mem_cons_self)

/-- Two nodes, three requests: each node starts at its own address 0. -/
theorem linear_space_two_nodes :
    LinearRight (nodeCalls zeroPtrs 16 [(16, 20#64), (17, 8#64), (16, 4096#64)]) :=
  (linear_space_iff 16 (by decide)).mpr (by decide)

/-- A request for the whole space is refused, and nothing fits after it. -/
theorem linear_space_lost :
    ¬ LinearRight (nodeCalls zeroPtrs 16 [(16, 16#64), (16, 0x100000#64), (16, 8#64)]) := by
  intro h
  have hcalls : nodeCalls zeroPtrs 16 [(16, 16#64), (16, 0x100000#64), (16, 8#64)] =
      [⟨16, 16#64, 0#64, 16#64, some 0#64⟩, ⟨16, 0x100000#64, 16#64, 0x100010#64, none⟩] ++
        ⟨16, 8#64, 0x100010#64, 0x100018#64, none⟩ :: [] := rfl
  refine h.granted _ _ _ hcalls ⟨16, by decide, by decide, fun c hc ptr hptr => ?_⟩ rfl
  rcases List.mem_cons.mp hc with rfl | hc
  · obtain rfl := Option.some.inj hptr
    decide
  · obtain rfl := List.mem_singleton.mp hc
    cases hptr

/-- The cursor comes round: a region far outside is granted, then the one at 0 once more. -/
example : (nodeCalls zeroPtrs 16 [(16, 16#64), (16, 0x7ffffffffffffff8#64),
    (16, 0x7ffffffffffffff8#64), (16, 8#64)]).map LinearCall.result =
      [some 0#64, none, some 0x8000000000000008#64, some 0#64] := rfl

end TensorAlloc
