/-
  File:      TensorAlloc/Struct.lean
  Subject:   `tensor_struct.h`: the sizes, the bit macros, the item flags word and the enumerations,
             with the field functions of `tensor_ops.h` over the flags word.

  * the macros are over 64-bit words, as `1ULL` makes them; `mr` and `gr` are the library's field
    write and read (`mr_eq`, `gr_eq`);
  * the item fields are one definition with the field as parameter (`field`, `withField`) and one
    theorem (`field_withField`); every function of the source keeps its name over it;
  * `MIGRATION_MOVABLE` and `MIGRATION_SPARSE_MOVABLE` are both 0 in the enumeration, so they are
    ONE constructor here too.
-/
import Mathlib.Data.Fintype.Defs
import TensorAlloc.Base.BitField

namespace TensorAlloc

/-- `word_t`. -/
abbrev Word := BitVec 64

/-- The address of an item descriptor, counted in descriptors. -/
abbrev Item := Nat

/-! ## 1. Sizes -/

def fixedItemSizeShift : Nat := 12
def fixedItemSize : Nat := 2 ^ fixedItemSizeShift
def nodeLvlNumShift : Nat := 4
def nodeDimNumShift : Nat := 4
def nodeLvlNum : Nat := 2 ^ nodeLvlNumShift
def nodeDimNum : Nat := 2 ^ nodeDimNumShift
def pnodeNum : Nat := 2 ^ (nodeDimNum + nodeLvlNum)

def groupLvlNum : Nat := 4
def groupOrderNumShift : Nat := 12
def groupRangeNumShift : Nat := 12
def groupPriorNumShift : Nat := 3
def groupIdxNumShift : Nat := 12
def maxGroupLvls : Nat := groupLvlNum - 1

/-- `FUNCTION_ITEM`: how many orders a level has, 9 for the shift 12. -/
def functionItem (itemShift : Nat) : Nat := itemShift - 3

/-- `FUNCTION_ITEM_LVL`: the shift of a level's unit, 27, 18, 9, 0 for the levels 0 to 3. -/
def functionItemLvl (itemShift level : Nat) : Nat :=
  (groupLvlNum - level) * (itemShift - 3) + 3 - itemShift

/-- `FUNCTION_ITEM_LVL_PRIOR`. -/
def functionItemLvlPrior (itemShift level : Nat) : Nat := (groupLvlNum - level - 1) * itemShift

def maxItemOrder : Nat := functionItem groupOrderNumShift - 1
def maxItemRange : Nat := functionItem groupRangeNumShift - 1
def maxIdxNum : Nat := functionItem groupIdxNumShift - 1

def nodeReservedRangeSize : Nat := 0x100000
def lruCacheMaxItems : Nat := 1024
def bitsPerLong : Nat := 64
def sliceStructMinBsize : Nat := fixedItemSize / bitsPerLong

@[simp] theorem maxItemOrder_eq : maxItemOrder = 8 := rfl
@[simp] theorem maxItemRange_eq : maxItemRange = 8 := rfl
@[simp] theorem maxIdxNum_eq : maxIdxNum = 8 := rfl
@[simp] theorem groupLvlNum_eq : groupLvlNum = 4 := rfl
@[simp] theorem maxGroupLvls_eq : maxGroupLvls = 3 := rfl
@[simp] theorem functionItem_order : functionItem groupOrderNumShift = 9 := rfl
@[simp] theorem functionItem_range : functionItem groupRangeNumShift = 9 := rfl
@[simp] theorem fixedItemSize_eq : fixedItemSize = 4096 := rfl

/-- The unit of a level is 512 units of the next finer one. -/
theorem functionItemLvl_eq {lvl : Nat} (h : lvl ≤ 3) :
    functionItemLvl groupOrderNumShift lvl = (3 - lvl) * 9 := by
  unfold functionItemLvl groupOrderNumShift
  simp only [groupLvlNum_eq]
  omega

/-! ## 2. Bit macros -/

def bit (x : Nat) : Word := 1#64 <<< x
def bm (base count : Nat) (val : Word) : Word := (val &&& ((1#64 <<< count) - 1#64)) <<< base
def am (base count : Nat) : Word := ((1#64 <<< count) - 1#64) <<< base
def su (me val : Word) : Word := me ||| val
def cu (me val : Word) : Word := me &&& ~~~val
def gu (me mask : Word) : Word := me &&& mask
def mu (me mask val : Word) : Word := (me &&& ~~~(gu me mask)) ||| val
def gr (me : Word) (base count : Nat) : Word := gu me (am base count) >>> base
def zr (me : Word) (base count : Nat) : Word := cu me (am base count)
def mr (me : Word) (base count : Nat) (val : Word) : Word :=
  mu me (am base count) (bm base count val)
def sb (me : Word) (base : Nat) : Word := su me (bit base)
def gb (me : Word) (base : Nat) : Word := gu me (bit base) >>> base
def cb (me : Word) (base : Nat) : Word := cu me (bit base)

/-- `ROUND_DOWN`: a mask, a multiple of `n` only where `n` is a power of two. -/
def roundDown (x n : Word) : Word := x &&& ~~~(n - 1#64)

theorem toNat_bit {x : Nat} (h : x < 64) : (bit x).toNat = 2 ^ x := by
  unfold bit
  rw [BitVec.toNat_shiftLeft, Nat.shiftLeft_eq, show (1#64).toNat = 1 from rfl, Nat.one_mul]
  exact Nat.mod_eq_of_lt (Nat.pow_lt_pow_right (by decide) h)

theorem gr_eq (me : Word) (base count : Nat) : gr me base count = BitField.get me base count := rfl

theorem mr_eq (me : Word) (base count : Nat) (val : Word) :
    mr me base count val = BitField.set me base count val := rfl

/-- Clearing under a mask, or under what the word holds of it, is the same. -/
theorem cu_gu (me mask : Word) : cu me (gu me mask) = cu me mask := by
  apply BitVec.eq_of_getLsbD_eq
  intro i hi
  simp only [cu, gu, BitVec.getLsbD_and, BitVec.getLsbD_not, hi, decide_true, Bool.true_and]
  cases me.getLsbD i <;> cases mask.getLsbD i <;> rfl

theorem zr_eq_mr (me : Word) (base count : Nat) : zr me base count = mr me base count 0#64 := by
  have h : bm base count 0#64 = 0#64 := by simp [bm]
  have e := cu_gu me (am base count)
  unfold cu at e
  unfold zr mr mu cu
  rw [h, e]
  simp

theorem cb_eq_zr (me : Word) (base : Nat) : cb me base = zr me base 1 := by
  have h : (1#64 <<< 1) - 1#64 = 1#64 := by decide
  unfold cb zr am bit
  rw [h]

theorem sb_eq_mr (me : Word) (base : Nat) : sb me base = mr me base 1 1#64 := by
  have h : (1#64 <<< 1) - 1#64 = 1#64 := by decide
  unfold sb mr mu am bm bit su gu
  rw [h, BitVec.and_self]
  apply BitVec.eq_of_getLsbD_eq
  intro i hi
  simp only [BitVec.getLsbD_or, BitVec.getLsbD_and, BitVec.getLsbD_not, hi, decide_true,
    Bool.true_and]
  cases me.getLsbD i <;> cases (1#64 <<< base).getLsbD i <;> rfl

/-! ## 3. The item flags word -/

/-- The fields of `enum item_flags`. -/
inductive ItemField where
  | present | order | state | table | node | section_ | dim | func | freeidx
  deriving DecidableEq, Repr

/-- `BASE_ITEM_*`. -/
def ItemField.base : ItemField → Nat
  | .present => 0 | .order => 1 | .state => 5 | .table => 9 | .node => 14
  | .section_ => 19 | .dim => 24 | .func => 29 | .freeidx => 32

/-- `OFFSET_ITEM_*`, the width; the present flag is the single bit of `SB`, `CB` and `GB`. -/
def ItemField.offset : ItemField → Nat
  | .present => 1 | .order => 4 | .state => 4 | .table => 5 | .node => 5
  | .section_ => 5 | .dim => 5 | .func => 3 | .freeidx => 32

/-- `get_item_*`: the field of a flags word. -/
def field (f : ItemField) (flags : Word) : Nat := (gr flags f.base f.offset).toNat

/-- `set_item_*`: the flags word with one field replaced. -/
def withField (f : ItemField) (flags : Word) (val : Nat) : Word :=
  mr flags f.base f.offset (BitVec.ofNat 64 val)

theorem ItemField.bounds (f : ItemField) : f.base + f.offset ≤ 64 ∧ f.offset < 64 := by
  cases f <;> decide

theorem field_lt (f : ItemField) (flags : Word) : field f flags < 2 ^ f.offset :=
  BitField.toNat_get_lt f.bounds.1 f.bounds.2

/-- Two fields share no bit. -/
theorem ItemField.disjoint {f g : ItemField} (h : f ≠ g) :
    f.base + f.offset ≤ g.base ∨ g.base + g.offset ≤ f.base := by
  cases f <;> cases g <;> first | exact absurd rfl h | decide

/-- **The flags word is a record**: a field reads back what was written to it, cut to its width,
    and every other field keeps its value. -/
@[simp] theorem field_withField (f g : ItemField) (flags : Word) (val : Nat) :
    field f (withField g flags val) = if f = g then val % 2 ^ f.offset else field f flags := by
  obtain ⟨hb, ho⟩ := f.bounds
  unfold field withField
  rw [gr_eq, mr_eq, gr_eq]
  by_cases h : f = g
  · subst h
    rw [if_pos rfl, BitField.get_set_same hb ho, BitField.toNat_and_mask ho, BitVec.toNat_ofNat]
    exact Nat.mod_mod_of_dvd _ (Nat.pow_dvd_pow 2 (by omega))
  · rw [if_neg h, BitField.get_set_other hb ho g.bounds.2 (ItemField.disjoint h)]

/-- `set_item_present` is the macro `SB`: the write of a one to the single bit. -/
def setItemPresent (flags : Word) : Word := sb flags ItemField.present.base

/-- `clear_item_present` is the macro `CB`. -/
def clearItemPresent (flags : Word) : Word := cb flags ItemField.present.base

/-- `item_is_present`, the macro `GB` compared with zero. -/
def itemIsPresent (flags : Word) : Bool := gb flags ItemField.present.base != 0#64

@[simp] theorem setItemPresent_eq (flags : Word) :
    setItemPresent flags = withField .present flags 1 :=
  sb_eq_mr flags 0

@[simp] theorem clearItemPresent_eq (flags : Word) :
    clearItemPresent flags = withField .present flags 0 := by
  unfold clearItemPresent
  rw [cb_eq_zr, zr_eq_mr]
  rfl

@[simp] theorem itemIsPresent_eq (flags : Word) :
    itemIsPresent flags = decide (field .present flags ≠ 0) := by
  have h : gb flags 0 = gr flags 0 1 := by
    have e : (1#64 <<< 1) - 1#64 = 1#64 := by decide
    unfold gb gr am bit
    rw [e]
  unfold itemIsPresent field
  show (gb flags 0 != 0#64) = decide ((gr flags 0 1).toNat ≠ 0)
  rw [h, bne, Bool.beq_eq_decide_eq, ← decide_not]
  exact decide_eq_decide.mpr (not_congr BitVec.toNat_eq)

/-- `clear_item_*` of a plain field: the macro `ZR`. -/
def clearField (f : ItemField) (flags : Word) : Word := zr flags f.base f.offset

@[simp] theorem clearField_eq (f : ItemField) (flags : Word) :
    clearField f flags = withField f flags 0 := zr_eq_mr flags f.base f.offset

@[simp] def setItemOrder (flags : Word) (order : Nat) : Word := withField .order flags order
@[simp] def clearItemOrder (flags : Word) : Word := clearField .order flags
@[simp] def getItemOrder (flags : Word) : Nat := field .order flags
@[simp] def setItemState (flags : Word) (state : Nat) : Word := withField .state flags state
@[simp] def clearItemState (flags : Word) : Word := clearField .state flags
@[simp] def getItemState (flags : Word) : Nat := field .state flags
@[simp] def setItemFunc (flags : Word) (state : Nat) : Word := withField .func flags state
@[simp] def clearItemFunc (flags : Word) : Word := clearField .func flags
@[simp] def getItemFunc (flags : Word) : Nat := field .func flags
@[simp] def setItemFreeidx (flags : Word) (state : Nat) : Word := withField .freeidx flags state
@[simp] def clearItemFreeidx (flags : Word) : Word := clearField .freeidx flags
@[simp] def getItemFreeidx (flags : Word) : Nat := field .freeidx flags
@[simp] def setItemTableNo (flags : Word) (table : Nat) : Word := withField .table flags table
@[simp] def clearItemTableNo (flags : Word) : Word := clearField .table flags
@[simp] def getItemTableNo (flags : Word) : Nat := field .table flags
@[simp] def setItemNode (flags : Word) (node : Nat) : Word := withField .node flags node
@[simp] def clearItemNode (flags : Word) : Word := clearField .node flags
@[simp] def getItemNode (flags : Word) : Nat := field .node flags
@[simp] def setItemSection (flags : Word) (table : Nat) : Word := withField .section_ flags table
@[simp] def getItemSection (flags : Word) : Nat := field .section_ flags
@[simp] def setItemDim (flags : Word) (val : Nat) : Word := withField .dim flags val
@[simp] def getItemDim (flags : Word) : Nat := field .dim flags

/-- `clear_item_section` writes ones, not zeros: `MASK(OFFSET_ITEM_SECTION)`. -/
@[simp] def clearItemSection (flags : Word) : Word :=
  withField .section_ flags (2 ^ ItemField.section_.offset - 1)

/-- `clear_item_dim`, called without its second parameter in `free_group_migration`: the field
    is zeroed like the others there. -/
@[simp] def clearItemDim (flags : Word) : Word := clearField .dim flags

/-! ## 4. States and migration types -/

/-- `enum item_state`. -/
inductive ItemState where
  | movableNormal | movableComp | movableNode | slubTypes | sparseTypes | sparsePrior
  | sparseVirtualStream | sparsePhysicalStream | nomovableTypes | reclaimTypes | lruCacheTypes
  deriving DecidableEq, Repr

/-- The enumerators in order: a state's number is its place. -/
def itemStates : List ItemState :=
  [.movableNormal, .movableComp, .movableNode, .slubTypes, .sparseTypes, .sparsePrior,
    .sparseVirtualStream, .sparsePhysicalStream, .nomovableTypes, .reclaimTypes, .lruCacheTypes]

/-- `enum item_migration_type`; `MIGRATION_SPARSE_MOVABLE` has the value of
    `MIGRATION_MOVABLE`. -/
inductive MigrationType where
  | movable | unmovable | reclaimable | lrutype
  deriving DecidableEq, Repr

instance : Fintype MigrationType :=
  ⟨{.movable, .unmovable, .reclaimable, .lrutype}, fun t => by cases t <;> decide⟩

/-- `MIGRATION_SPARSE_MOVABLE`. -/
abbrev MigrationType.sparseMovable : MigrationType := .movable

/-- `item_state_to_migration`; `none` is the -1 of the default branch. The label
    `STATE_ITEM_SPARSE_STREAM` names no enumerator: it is read as the two stream states. -/
def itemStateToMigration (state : Nat) : Option MigrationType :=
  match itemStates[state]? with
  | some .movableNormal | some .movableComp | some .movableNode => some .movable
  | some .slubTypes | some .lruCacheTypes => some .lrutype
  | some .nomovableTypes => some .unmovable
  | some .reclaimTypes => some .reclaimable
  | some .sparseTypes | some .sparseVirtualStream | some .sparsePhysicalStream =>
      some .sparseMovable
  | some .sparsePrior | none => none

end TensorAlloc
