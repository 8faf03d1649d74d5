/-
  File:      TensorAlloc/Flags.lean
  Subject:   The flags word of an item over a whole sequence of calls to its field functions.

  * `ItemCall` -- a call that writes the word, `ItemCall.write` the field and the value it means;
  * `itemCalls_record` -- after any calls every reader returns the last value written to its field,
    and no call touches a bit outside its own field.
-/
import TensorAlloc.Base.FieldStore
import TensorAlloc.Struct

namespace TensorAlloc

open FieldStore

/-- A call to one of the writers, with its `word_t` argument. -/
inductive ItemCall where
  | setPresent | clearPresent
  | setOrder (order : Word) | setState (state : Word) | setFunc (state : Word)
  | setFreeidx (state : Word) | setTableNo (table : Word) | setNode (node : Word)
  | setSection (table : Word) | setDim (val : Word)
  | clearOrder | clearState | clearFunc | clearFreeidx | clearTableNo | clearNode
  deriving DecidableEq, Repr

/-- The word after the call. -/
def ItemCall.run (flags : Word) : ItemCall → Word
  | .setPresent => setItemPresent flags
  | .clearPresent => clearItemPresent flags
  | .setOrder order => setItemOrder flags order.toNat
  | .setState state => setItemState flags state.toNat
  | .setFunc state => setItemFunc flags state.toNat
  | .setFreeidx state => setItemFreeidx flags state.toNat
  | .setTableNo table => setItemTableNo flags table.toNat
  | .setNode node => setItemNode flags node.toNat
  | .setSection table => setItemSection flags table.toNat
  | .setDim val => setItemDim flags val.toNat
  | .clearOrder => clearItemOrder flags
  | .clearState => clearItemState flags
  | .clearFunc => clearItemFunc flags
  | .clearFreeidx => clearItemFreeidx flags
  | .clearTableNo => clearItemTableNo flags
  | .clearNode => clearItemNode flags

/-- The field a call is about, and the value it gives it. -/
def ItemCall.write : ItemCall → ItemField × Nat
  | .setPresent => (.present, 1)
  | .clearPresent => (.present, 0)
  | .setOrder order => (.order, order.toNat)
  | .setState state => (.state, state.toNat)
  | .setFunc state => (.func, state.toNat)
  | .setFreeidx state => (.freeidx, state.toNat)
  | .setTableNo table => (.table, table.toNat)
  | .setNode node => (.node, node.toNat)
  | .setSection table => (.section_, table.toNat)
  | .setDim val => (.dim, val.toNat)
  | .clearOrder => (.order, 0)
  | .clearState => (.state, 0)
  | .clearFunc => (.func, 0)
  | .clearFreeidx => (.freeidx, 0)
  | .clearTableNo => (.table, 0)
  | .clearNode => (.node, 0)

/-- The word after the calls. -/
def runCalls (calls : List ItemCall) (flags : Word) : Word := calls.foldl ItemCall.run flags

/-- The reader of a field: `item_is_present` as 0 or 1, `get_item_*` of the others. -/
def readItem (flags : Word) : ItemField → Nat
  | .present => (itemIsPresent flags).toNat
  | .order => getItemOrder flags
  | .state => getItemState flags
  | .table => getItemTableNo flags
  | .node => getItemNode flags
  | .section_ => getItemSection flags
  | .dim => getItemDim flags
  | .func => getItemFunc flags
  | .freeidx => getItemFreeidx flags

/-- The value last written to a field. -/
def lastWritten (f : ItemField) (calls : List ItemCall) : Option Nat :=
  lastWrite f (calls.map ItemCall.write)

/-- The flags word as a store of fields. -/
def itemFlags : Fields Word ItemField Nat where
  get := field
  set f val flags := withField f flags val
  cut f val := val % 2 ^ f.offset
  get_set_same f val flags := by rw [field_withField, if_pos rfl]
  get_set_other f g val flags h := by rw [field_withField, if_neg h]

/-- A call writes its value to its field, and that is all it does. -/
theorem ItemCall.run_eq (c : ItemCall) (flags : Word) :
    c.run flags = withField c.write.1 flags c.write.2 := by
  cases c <;> simp [run, write]

theorem runCalls_eq (calls : List ItemCall) (flags : Word) :
    runCalls calls flags = itemFlags.run flags (calls.map ItemCall.write) := by
  induction calls generalizing flags with
  | nil => rfl
  | cons c calls ih =>
      show runCalls calls (c.run flags) = _
      rw [ih, c.run_eq]
      rfl

/-- The readers read the fields; the present flag is one bit wide. -/
theorem readItem_eq (flags : Word) (f : ItemField) : readItem flags f = field f flags := by
  cases f with
  | present =>
      have hlt : field .present flags < 2 := field_lt .present flags
      show (itemIsPresent flags).toNat = _
      rw [itemIsPresent_eq]
      by_cases h : field .present flags = 0
      · rw [h]
        rfl
      · rw [decide_eq_true h]
        show 1 = _
        omega
  | _ => rfl

/-- A call leaves every bit outside its field as it was. -/
theorem ItemCall.run_bit (c : ItemCall) (flags : Word) {i : Nat} (hi : i < 64)
    (h : ¬ (c.write.1.base ≤ i ∧ i < c.write.1.base + c.write.1.offset)) :
    (c.run flags).getLsbD i = flags.getLsbD i := by
  rw [c.run_eq]
  unfold withField
  rw [mr_eq, BitField.getLsbD_set c.write.1.bounds.2 hi, if_neg h]

/-- **The flags word is a faithful record**: whatever the calls and their arguments, every reader
    returns the last value written to its field, cut to the field's width, or the field as it was;
    and no call changes a bit of another field. -/
theorem itemCalls_record (flags : Word) (calls : List ItemCall) :
    (∀ f, readItem (runCalls calls flags) f =
      match lastWritten f calls with
      | some val => val % 2 ^ f.offset
      | none => readItem flags f) ∧
    ∀ (c : ItemCall) (w : Word), ∀ i < 64,
      ¬ (c.write.1.base ≤ i ∧ i < c.write.1.base + c.write.1.offset) →
        (c.run w).getLsbD i = w.getLsbD i := by
  refine ⟨fun f => ?_, fun c w i hi h => c.run_bit w hi h⟩
  rw [readItem_eq, runCalls_eq]
  show itemFlags.get f _ = _
  rw [itemFlags.get_run]
  unfold lastWritten
  cases lastWrite f (calls.map ItemCall.write) with
  | some val => rfl
  | none => exact (readItem_eq flags f).symm

end TensorAlloc
