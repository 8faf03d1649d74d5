/-
  File:      TensorAlloc/Bitmap.lean
  Subject:   The bitmaps of types.h, of any number of words: single bits, the searches and the loops.

  * `Bitmap.setBit` .. `Bitmap.findNextZeroBit` -- as types.h has them; `none` is a read past the words,
    or a loop that does not end within their number of rounds;
  * `BitCall` -- a call, on the words (`bitmapCall`) and on the set of numbers they stand for (`setCall`);
  * `bitmap_calls_refine` -- in every run of calls the two give the same answers; a bit is an `int`;
  * `forEachSetBit` .. `forEachClearBitFrom` -- the loops; `bitmap_loops_fold` -- each is the fold over
    the members there were at its start, though its body changes bits up to the one it is at.

  The slab searches one word, `slice_ref`: there the searches are those of `findFirstBit_word`.
-/
import TensorAlloc.Base.BitScan
import TensorAlloc.Slab

namespace TensorAlloc

open BitSearch

/-! ## 1. types.h -/

/-- The words at `addr`. -/
abbrev Bitmap := List Word

namespace Bitmap

/-- `BITMAP_FIRST_WORD_MASK`. -/
def firstWordMask (start : Nat) : Word := ~~~0#64 <<< (start &&& (bitsPerLong - 1))

section Calls

variable (addr : Bitmap) (nr : Nat)

/-- `nr` as the `int` that `set_bit`, `clear_bit` and `is_set_bit` take. A negative one is of a word
    before the bitmap, or shifts by less than 0. -/
def intArg : Option Nat :=
  let nr := (BitVec.ofNat 32 nr).toInt
  if nr < 0 then none else some nr.toNat

def setBit : Option Bitmap := do
  let nr ← intArg nr
  let word ← addr[nr / bitsPerLong]?
  pure (addr.set (nr / bitsPerLong) (TensorAlloc.setBit nr word))

def clearBit : Option Bitmap := do
  let nr ← intArg nr
  let word ← addr[nr / bitsPerLong]?
  pure (addr.set (nr / bitsPerLong) (TensorAlloc.clearBit nr word))

def isSetBit : Option Bool := do
  let nr ← intArg nr
  addr[nr / bitsPerLong]?.map (TensorAlloc.isSetBit nr)

end Calls

section Searches

variable (addr : Bitmap) (size offset : Nat)

/-- The loop of `find_first_bit` and `find_first_zero_bit`: words equal to `full` are passed over, and
    `first` finds the bit in another. -/
def findFirstLoop (full : Word) (first : Word → Nat) : Nat → Nat → Option Nat
  | 0, _ => none
  | k + 1, idx =>
      if idx * bitsPerLong % 2 ^ 64 < size then do
        let word ← addr[idx]?
        if word ≠ full then pure (min ((idx * bitsPerLong + first word) % 2 ^ 64) size)
        else findFirstLoop full first k (idx + 1)
      else some size

def findFirstBit : Option Nat := findFirstLoop addr size 0#64 ffs (addr.length + 1) 0

def findFirstZeroBit : Option Nat := findFirstLoop addr size (~~~0#64) ffz (addr.length + 1) 0

/-- `while (!tmp)`, and the return after it. -/
def findNextLoop (nbits : Nat) (invert : Word) : Nat → Word → Nat → Option Nat
  | 0, _, _ => none
  | k + 1, tmp, start =>
      if tmp = 0#64 then
        let start := (start + bitsPerLong) % 2 ^ 64
        if nbits ≤ start then some nbits
        else do
          let word ← addr[start / bitsPerLong]?
          findNextLoop nbits invert k (word ^^^ invert) start
      else some (min ((start + ffs tmp) % 2 ^ 64) nbits)

/-- `_find_next_bit`. -/
def findNext (nbits start : Nat) (invert : Word) : Option Nat :=
  if nbits = 0 ∨ nbits ≤ start then some nbits
  else do
    let word ← addr[start / bitsPerLong]?
    findNextLoop addr nbits invert (addr.length + 1) ((word ^^^ invert) &&& firstWordMask start)
      (roundDown (BitVec.ofNat 64 start) 64#64).toNat

def findNextBit : Option Nat := findNext addr size offset 0#64

def findNextZeroBit : Option Nat := findNext addr size offset (~~~0#64)

end Searches

end Bitmap

/-! ## 2. The words as a set -/

section Set

variable {addr : Bitmap} {i j nr : Nat} {w : Word}

theorem getLsbD_setBit : (setBit nr w).getLsbD j = (w.getLsbD j || decide (j = nr % 64)) := by
  unfold setBit
  rw [BitVec.getLsbD_or, show bitsPerLong = 64 from rfl, getLsbD_one_shift (Nat.mod_lt nr (by decide))]

theorem clearBit_mod : clearBit (nr % 64) w = clearBit nr w := by
  unfold clearBit
  rw [show bitsPerLong = 64 from rfl, Nat.mod_mod]

theorem isSetBit_mod : isSetBit (nr % 64) w = isSetBit nr w := by
  unfold isSetBit
  rw [show bitsPerLong = 64 from rfl, Nat.mod_mod]

theorem word_of_lt {k : Nat} (h : k < addr.length) : ∃ w, addr[k]? = some w :=
  ⟨_, List.getElem?_eq_getElem h⟩

/-- Below `2 ^ 31` the `int` is the number. -/
theorem intArg_of_lt (h : nr < 2 ^ 31) : Bitmap.intArg nr = some nr := by
  have hint : (BitVec.ofNat 32 nr).toInt = nr := by
    rw [BitVec.toInt_eq_toNat_of_lt (by rw [BitVec.toNat_ofNat]; omega), BitVec.toNat_ofNat,
      Nat.mod_eq_of_lt (by omega)]
  unfold Bitmap.intArg
  rw [hint, if_neg (by omega), Int.toNat_natCast]

theorem intArg_le {m : Nat} (h : Bitmap.intArg nr = some m) : m ≤ nr := by
  have hle : (BitVec.ofNat 32 nr).toInt ≤ nr := by
    rw [BitVec.toInt_eq_toNat_cond, BitVec.toNat_ofNat]
    have hmod := Nat.mod_le nr (2 ^ 32)
    split <;> omega
  unfold Bitmap.intArg at h
  dsimp only at h
  split at h
  · cases h
  · obtain rfl := Option.some.inj h
    omega

theorem bitAt_of_word (h : addr[i / 64]? = some w) : bitAt addr i = w.getLsbD (i % 64) := by
  unfold bitAt
  rw [List.getD_eq_getElem?_getD, h]
  rfl

/-- One bit of one word is one number. -/
theorem bitAt_set {b : Bool} {w' : Word} (hw : addr[nr / 64]? = some w)
    (hb : ∀ j < 64, w'.getLsbD j = if j = nr % 64 then b else w.getLsbD j) :
    bitAt (addr.set (nr / 64) w') = Function.update (bitAt addr) nr b := by
  funext i
  have hk := (List.getElem?_eq_some_iff.mp hw).1
  by_cases hdiv : i / 64 = nr / 64
  · have hset : (addr.set (nr / 64) w')[i / 64]? = some w' := by
      rw [hdiv]
      exact List.getElem?_set_self hk
    rw [bitAt_of_word hset, hb _ (Nat.mod_lt i (by decide))]
    by_cases h : i = nr
    · rw [h, if_pos rfl, Function.update_self]
    · rw [if_neg (by omega), Function.update_of_ne h, bitAt_of_word (hdiv ▸ hw)]
  · have hi : i ≠ nr := fun h => hdiv (h ▸ rfl)
    unfold bitAt
    rw [Function.update_of_ne hi, List.getD_eq_getElem?_getD, List.getElem?_set_ne (Ne.symm hdiv),
      List.getD_eq_getElem?_getD]

/-- **`set_bit` puts the number in.** -/
theorem bitmap_setBit (h : nr < 64 * addr.length) (hint : nr < 2 ^ 31) :
    ∃ addr', addr.setBit nr = some addr' ∧ addr'.length = addr.length ∧ bitAt addr' = Function.update (bitAt addr) nr true := by
  obtain ⟨w, hw⟩ := word_of_lt (Nat.div_lt_of_lt_mul h)
  refine ⟨addr.set (nr / 64) (setBit nr w), ?_, List.length_set, bitAt_set hw fun j _ => ?_⟩
  · unfold Bitmap.setBit
    rw [intArg_of_lt hint, show bitsPerLong = 64 from rfl, Option.bind_eq_bind, Option.bind_some, hw]
    rfl
  · rw [getLsbD_setBit]
    by_cases hj : j = nr % 64 <;> simp [hj]

theorem bitAt_clearBit (hw : addr[nr / 64]? = some w) :
    bitAt (addr.set (nr / 64) (clearBit nr w)) = Function.update (bitAt addr) nr false :=
  bitAt_set hw fun j hj => by
    rw [← clearBit_mod, getLsbD_clearBit hj (Nat.mod_lt nr (by decide))]
    by_cases hj : j = nr % 64 <;> simp [hj]

/-- **`clear_bit` takes it out.** -/
theorem bitmap_clearBit (h : nr < 64 * addr.length) (hint : nr < 2 ^ 31) :
    ∃ addr', addr.clearBit nr = some addr' ∧ addr'.length = addr.length ∧ bitAt addr' = Function.update (bitAt addr) nr false := by
  obtain ⟨w, hw⟩ := word_of_lt (Nat.div_lt_of_lt_mul h)
  refine ⟨addr.set (nr / 64) (clearBit nr w), ?_, List.length_set, bitAt_clearBit hw⟩
  unfold Bitmap.clearBit
  rw [intArg_of_lt hint, show bitsPerLong = 64 from rfl, Option.bind_eq_bind, Option.bind_some, hw]
  rfl

theorem bitmap_isSetBit (h : nr < 64 * addr.length) (hint : nr < 2 ^ 31) :
    addr.isSetBit nr = some (bitAt addr nr) := by
  obtain ⟨w, hw⟩ := word_of_lt (Nat.div_lt_of_lt_mul h)
  unfold Bitmap.isSetBit
  rw [intArg_of_lt hint, Option.bind_eq_bind, Option.bind_some, show bitsPerLong = 64 from rfl, hw,
    Option.map_some, bitAt_of_word hw, ← isSetBit_mod,
    isSetBit_eq (Nat.mod_lt nr (by decide))]

end Set

/-! ## 3. The searches -/

section Search

variable {addr : Bitmap} {size nbits start idx k s : Nat} {tmp w : Word} {clear : Bool}

/-- The numbers a search looks for: those in the set, or those that are not. -/
def sought (clear : Bool) (addr : Bitmap) (i : Nat) : Bool := bitAt addr i ^^ clear

/-- The word that has none of them. -/
def fullWord (clear : Bool) : Word := if clear then ~~~0#64 else 0#64

theorem sought_false : sought false addr = bitAt addr :=
  funext fun i => Bool.xor_false (bitAt addr i)

theorem sought_true : sought true addr = fun i => !bitAt addr i :=
  funext fun i => Bool.xor_true (bitAt addr i)

theorem getLsbD_ones {q : Nat} (hq : q < 64) : (~~~0#64).getLsbD q = true := by
  rw [BitVec.getLsbD_not, BitVec.getLsbD_zero, decide_eq_true hq]
  rfl

theorem getLsbD_fullWord {q : Nat} (hq : q < 64) : (fullWord clear).getLsbD q = clear := by
  cases clear
  · exact BitVec.getLsbD_zero
  · exact getLsbD_ones hq

/-- A word of the bitmap, inverted where the others are sought. -/
theorem isWord_sought (hw : addr[k]? = some w) :
    IsWord (sought clear addr) (64 * k) k (w ^^^ fullWord clear) := fun q hq => by
  have hdiv : (64 * k + q) / 64 = k := by omega
  have hmod : (64 * k + q) % 64 = q := by omega
  rw [BitVec.getLsbD_xor, getLsbD_fullWord hq, decide_eq_true (Nat.le_add_right (64 * k) q),
    Bool.true_and]
  unfold sought
  rw [bitAt_of_word (by rw [hdiv]; exact hw), hmod]

theorem getLsbD_firstWordMask {q : Nat} (hq : q < 64) :
    (Bitmap.firstWordMask start).getLsbD q = decide (start % 64 ≤ q) := by
  have hmod : start &&& (bitsPerLong - 1) = start % 64 := Nat.and_two_pow_sub_one_eq_mod start 6
  unfold Bitmap.firstWordMask
  rw [hmod, BitVec.getLsbD_shiftLeft]
  by_cases h : start % 64 ≤ q
  · rw [getLsbD_ones (Nat.lt_of_le_of_lt (Nat.sub_le _ _) hq)]
    simp [h, hq]
  · simp [h, Nat.lt_of_not_le h]

/-- The first word, masked. -/
theorem isWord_first (hw : addr[start / 64]? = some w) : IsWord (sought clear addr) start (start / 64)
    ((w ^^^ fullWord clear) &&& Bitmap.firstWordMask start) := fun q hq => by
  rw [BitVec.getLsbD_and, getLsbD_firstWordMask hq, @isWord_sought addr (start / 64) w clear hw q hq,
    decide_eq_true (Nat.le_add_right _ q), Bool.true_and, Bool.and_comm]
  congr 1
  exact decide_eq_decide.mpr (by omega)

theorem roundDown_start (h : start < 2 ^ 64) :
    (roundDown (BitVec.ofNat 64 start) 64#64).toNat = 64 * (start / 64) := by
  have hmask : ~~~(64#64 - 1#64) = ~~~BitField.mask 6 := rfl
  unfold roundDown
  rw [hmask, BitField.toNat_and_not_mask (by decide), BitVec.toNat_ofNat, Nat.mod_eq_of_lt h]
  exact Nat.mul_comm _ _

/-- The first search, from word `idx` on. -/
theorem findFirstLoop_eq {first : Word → Nat} (hf : ∀ w, first w = ffs (w ^^^ fullWord clear))
    (hfit : size ≤ 64 * addr.length) (hsize : size ≤ 2 ^ 64 - 64) (hlow : 64 * idx < size + 64)
    (hidx : idx ≤ addr.length) (hk : addr.length < k + idx) :
    addr.findFirstLoop size (fullWord clear) first k idx =
      some (nextIn (sought clear addr) (64 * idx) size) := by
  induction k generalizing idx with
  | zero => omega
  | succ k ih =>
      have hmod : idx * bitsPerLong % 2 ^ 64 = 64 * idx := by
        rw [Nat.mul_comm]
        exact Nat.mod_eq_of_lt (show 64 * idx < 2 ^ 64 by omega)
      rw [Bitmap.findFirstLoop, hmod]
      split
      · next hlt =>
          obtain ⟨w, hw⟩ := @word_of_lt addr idx (by omega)
          have hword := @isWord_sought addr idx w clear hw
          rw [hw, Option.bind_eq_bind, Option.bind_some]
          split
          · next hne =>
              have hxor : w ^^^ fullWord clear ≠ 0#64 := fun h => hne (BitVec.xor_eq_zero_iff.mp h)
              have hlowest := ffs_lowest hxor
              rw [← hf] at hlowest
              have hq := BitVec.lt_of_getLsbD hlowest.one
              rw [nextIn_word hword (Nat.le_refl _) (Nat.le_of_lt hlt) hlowest, Nat.mul_comm,
                show bitsPerLong * idx = 64 * idx from rfl, Nat.mod_eq_of_lt (by omega)]
              rfl
          · next heq =>
              rw [not_not] at heq
              rw [heq, BitVec.xor_self] at hword
              rw [ih (by omega) (by omega) (by omega), nextIn_zeros hword (Nat.le_refl _) (by omega)]
      · next hge => rw [nextIn_of_le (Nat.le_of_not_lt hge)]

/-- The loop of the later searches, from the word it has masked. -/
theorem findNextLoop_eq (hfit : nbits ≤ 64 * addr.length) (hsize : nbits ≤ 2 ^ 64 - 64)
    (hword : IsWord (sought clear addr) s idx tmp) (hs1 : 64 * idx ≤ s) (hs2 : s ≤ 64 * (idx + 1))
    (hs : s ≤ nbits) (hlow : 64 * idx < nbits) (hk : addr.length ≤ k + idx) :
    addr.findNextLoop nbits (fullWord clear) k tmp (64 * idx) =
      some (nextIn (sought clear addr) s nbits) := by
  induction k generalizing idx s tmp with
  | zero => omega
  | succ k ih =>
      rw [Bitmap.findNextLoop]
      split
      · next hz =>
          have hmod : (64 * idx + bitsPerLong) % 2 ^ 64 = 64 * (idx + 1) :=
            Nat.mod_eq_of_lt (show 64 * idx + 64 < 2 ^ 64 by omega)
          rw [hz] at hword
          rw [hmod, nextIn_zeros hword hs1 hs2]
          dsimp only
          split
          · next hge => rw [nextIn_of_le hge]
          · next hlt =>
              have hdiv : 64 * (idx + 1) / bitsPerLong = idx + 1 := Nat.mul_div_cancel_left _ (by decide)
              obtain ⟨w, hw⟩ := @word_of_lt addr (idx + 1) (by omega)
              rw [hdiv, hw, Option.bind_eq_bind, Option.bind_some]
              exact ih (isWord_sought hw) (Nat.le_refl _) (by omega) (by omega) (by omega) (by omega)
      · next hne =>
          have hlowest := ffs_lowest hne
          have hq := BitVec.lt_of_getLsbD hlowest.one
          rw [nextIn_word hword hs1 hs hlowest, Nat.mod_eq_of_lt (by omega)]

/-- **`find_first_bit` and `find_first_zero_bit`.** -/
theorem findFirst_eq (hfit : size ≤ 64 * addr.length) (hsize : size ≤ 2 ^ 64 - 64) :
    addr.findFirstBit size = some (nextIn (bitAt addr) 0 size) ∧
      addr.findFirstZeroBit size = some (nextIn (fun i => !bitAt addr i) 0 size) := by
  constructor
  · rw [← sought_false]
    exact @findFirstLoop_eq addr size 0 _ false ffs (fun w => congrArg ffs BitVec.xor_zero.symm) hfit
      hsize (by omega) (Nat.zero_le _) (by omega)
  · rw [← sought_true]
    exact @findFirstLoop_eq addr size 0 _ true ffz (fun w => congrArg ffs BitVec.xor_allOnes.symm) hfit
      hsize (by omega) (Nat.zero_le _) (by omega)

theorem findNext_eq (hfit : size ≤ 64 * addr.length) (hsize : size ≤ 2 ^ 64 - 64) (clear : Bool) :
    addr.findNext size start (fullWord clear) = some (nextIn (sought clear addr) start size) := by
  unfold Bitmap.findNext
  split
  · next h => rw [nextIn_of_le (by omega)]
  · next h =>
      obtain ⟨w, hw⟩ := @word_of_lt addr (start / 64) (by omega)
      rw [show bitsPerLong = 64 from rfl, hw, Option.bind_eq_bind, Option.bind_some,
        roundDown_start (by omega)]
      exact findNextLoop_eq hfit hsize (isWord_first hw) (by omega) (by omega) (by omega) (by omega)
        (by omega)

/-- **`find_next_bit` and `find_next_zero_bit`.** -/
theorem findNextBit_eq (hfit : size ≤ 64 * addr.length) (hsize : size ≤ 2 ^ 64 - 64) :
    addr.findNextBit size start = some (nextIn (bitAt addr) start size) ∧
      addr.findNextZeroBit size start = some (nextIn (fun i => !bitAt addr i) start size) := by
  constructor
  · rw [← sought_false]
    exact findNext_eq hfit hsize false
  · rw [← sought_true]
    exact findNext_eq hfit hsize true

/-- The searches of the slab are those of a bitmap of one word. -/
theorem findFirstBit_word (h : size ≤ 64) : Bitmap.findFirstBit [w] size = some (findFirstBit w size) ∧
    Bitmap.findFirstZeroBit [w] size = some (findFirstZeroBit w size) := by
  have hloop : ∀ full first, (full ≠ w → first w < 64) → Bitmap.findFirstLoop [w] size full first 2 0 =
      some (if size = 0 then size else if w ≠ full then min (first w) size else size) := by
    intro full first hf
    rw [Bitmap.findFirstLoop, Nat.zero_mul, Nat.zero_mod]
    by_cases h0 : size = 0
    · rw [if_neg (by omega), if_pos h0]
    · rw [if_pos (Nat.pos_of_ne_zero h0), if_neg h0, List.getElem?_cons_zero, Option.bind_eq_bind,
        Option.bind_some]
      by_cases hw : w = full
      · rw [if_neg (not_not.mpr hw), if_neg (not_not.mpr hw), Bitmap.findFirstLoop]
        exact if_neg (Nat.not_lt.mpr h)
      · have hlt := hf (Ne.symm hw)
        rw [if_pos hw, if_pos hw, Nat.zero_add, Nat.mod_eq_of_lt (by omega)]
        rfl
  exact ⟨hloop _ _ fun h => BitVec.lt_of_getLsbD (ffs_lowest h.symm).one,
    hloop _ _ fun h => BitVec.lt_of_getLsbD
      (ffs_lowest fun hz => h (by rw [← BitVec.not_not (b := w), hz])).one⟩

end Search

/-! ## 4. Runs -/

inductive BitCall where
  | set (nr : Nat)
  | clear (nr : Nat)
  | isSet (nr : Nat)
  | findFirst (size : Nat)
  | findFirstZero (size : Nat)
  | findNext (size offset : Nat)
  | findNextZero (size offset : Nat)
  deriving DecidableEq, Repr

/-- What a call answers. -/
inductive BitAnswer where
  | done
  | flag (b : Bool)
  | index (i : Nat)
  deriving DecidableEq, Repr

/-- The call on the words. -/
def bitmapCall (addr : Bitmap) : BitCall → Option (Bitmap × BitAnswer)
  | .set nr => (addr.setBit nr).map (·, .done)
  | .clear nr => (addr.clearBit nr).map (·, .done)
  | .isSet nr => (addr.isSetBit nr).map fun b => (addr, .flag b)
  | .findFirst size => (addr.findFirstBit size).map fun i => (addr, .index i)
  | .findFirstZero size => (addr.findFirstZeroBit size).map fun i => (addr, .index i)
  | .findNext size offset => (addr.findNextBit size offset).map fun i => (addr, .index i)
  | .findNextZero size offset => (addr.findNextZeroBit size offset).map fun i => (addr, .index i)

/-- The call on a set of numbers. -/
def setCall (p : Nat → Bool) : BitCall → (Nat → Bool) × BitAnswer
  | .set nr => (Function.update p nr true, .done)
  | .clear nr => (Function.update p nr false, .done)
  | .isSet nr => (p, .flag (p nr))
  | .findFirst size => (p, .index (nextIn p 0 size))
  | .findFirstZero size => (p, .index (nextIn (fun i => !p i) 0 size))
  | .findNext size offset => (p, .index (nextIn p offset size))
  | .findNextZero size offset => (p, .index (nextIn (fun i => !p i) offset size))

def bitmapRun (addr : Bitmap) : List BitCall → Option (Bitmap × List BitAnswer)
  | [] => some (addr, [])
  | c :: cs => do
      let (addr, a) ← bitmapCall addr c
      let (addr, as) ← bitmapRun addr cs
      pure (addr, a :: as)

def setRun (p : Nat → Bool) : List BitCall → (Nat → Bool) × List BitAnswer
  | [] => (p, [])
  | c :: cs =>
      let (p, a) := setCall p c
      let (p, as) := setRun p cs
      (p, a :: as)

/-- The call stays in a bitmap of `words` words, its bit is an `int`. The last 64 sizes are none that an
    `unsigned long` can count up to in words. -/
def BitCall.Fits (words : Nat) : BitCall → Prop
  | .set nr | .clear nr | .isSet nr => nr < 64 * words ∧ nr < 2 ^ 31
  | .findFirst size | .findFirstZero size | .findNext size _ | .findNextZero size _ =>
      size ≤ 64 * words ∧ size ≤ 2 ^ 64 - 64

instance (words : Nat) : (c : BitCall) → Decidable (c.Fits words)
  | .set _ | .clear _ | .isSet _ => inferInstanceAs (Decidable (_ ∧ _))
  | .findFirst _ | .findFirstZero _ | .findNext _ _ | .findNextZero _ _ =>
      inferInstanceAs (Decidable (_ ∧ _))

section Run

variable {addr : Bitmap} {c : BitCall}

/-- One call. -/
theorem bitmapCall_simulates (h : c.Fits addr.length) : ∃ addr' a, bitmapCall addr c = some (addr', a) ∧
    addr'.length = addr.length ∧ setCall (bitAt addr) c = (bitAt addr', a) := by
  cases c with
  | set nr =>
      obtain ⟨addr', hs, hl, hb⟩ := bitmap_setBit h.1 h.2
      exact ⟨addr', .done, by rw [bitmapCall, hs]; rfl, hl, by rw [setCall, hb]⟩
  | clear nr =>
      obtain ⟨addr', hs, hl, hb⟩ := bitmap_clearBit h.1 h.2
      exact ⟨addr', .done, by rw [bitmapCall, hs]; rfl, hl, by rw [setCall, hb]⟩
  | isSet nr =>
      exact ⟨addr, .flag (bitAt addr nr), by rw [bitmapCall, bitmap_isSetBit h.1 h.2]; rfl, rfl, rfl⟩
  | findFirst size => exact ⟨addr, _, by rw [bitmapCall, (findFirst_eq h.1 h.2).1]; rfl, rfl, rfl⟩
  | findFirstZero size => exact ⟨addr, _, by rw [bitmapCall, (findFirst_eq h.1 h.2).2]; rfl, rfl, rfl⟩
  | findNext size offset => exact ⟨addr, _, by rw [bitmapCall, (findNextBit_eq h.1 h.2).1]; rfl, rfl, rfl⟩
  | findNextZero size offset =>
      exact ⟨addr, _, by rw [bitmapCall, (findNextBit_eq h.1 h.2).2]; rfl, rfl, rfl⟩

end Run

/-- **A bitmap is the set of numbers it stands for**: every run of calls that stay in its words returns,
    and answers as the set does. -/
theorem bitmap_calls_refine : ∀ addr calls, (∀ c ∈ calls, BitCall.Fits (List.length addr) c) →
    ∃ addr' answers, bitmapRun addr calls = some (addr', answers) ∧ addr'.length = addr.length ∧
      setRun (bitAt addr) calls = (bitAt addr', answers) := by
  intro addr calls h
  induction calls generalizing addr with
  | nil => exact ⟨addr, [], rfl, rfl, rfl⟩
  | cons c cs ih =>
      obtain ⟨addr₁, a, h₁, hl₁, hs₁⟩ := bitmapCall_simulates (h c (List.mem_cons_self ..))
      obtain ⟨addr₂, as, h₂, hl₂, hs₂⟩ := ih addr₁ fun c hc => hl₁ ▸ h c (List.mem_cons_of_mem _ hc)
      refine ⟨addr₂, a :: as, ?_, hl₂.trans hl₁, ?_⟩
      · rw [bitmapRun, h₁, Option.bind_eq_bind, Option.bind_some]
        dsimp only
        rw [h₂]
        rfl
      · rw [setRun, hs₁]
        dsimp only
        rw [hs₂]

/-- Bits 3 and 100 of two words. -/
theorem bitmap_calls_two : ∃ addr' answers,
    bitmapRun [0#64, 0#64]
      [.set 100, .findFirst 128, .set 3, .findNext 120 4, .clear 100, .findNext 120 4] =
        some (addr', answers) ∧ addr'.length = 2 ∧
    setRun (bitAt [0#64, 0#64])
      [.set 100, .findFirst 128, .set 3, .findNext 120 4, .clear 100, .findNext 120 4] =
        (bitAt addr', answers) :=
  bitmap_calls_refine [0#64, 0#64] _ (by decide)

/-! ## 5. The loops -/

section Loops

variable {σ : Type} (words : σ → Bitmap) (body : σ → Nat → Option σ) (size n bit : Nat) (s : σ)

/-- `for_each_set_bit`, of at most `n` rounds. -/
def forEachSetBit : Option σ := do
  let bit ← (words s).findFirstBit size
  scan (fun s => (words s).findNextBit size) body size n s bit

def forEachSetBitFrom : Option σ := do
  let bit ← (words s).findNextBit size bit
  scan (fun s => (words s).findNextBit size) body size n s bit

def forEachClearBit : Option σ := do
  let bit ← (words s).findFirstZeroBit size
  scan (fun s => (words s).findNextZeroBit size) body size n s bit

def forEachClearBitFrom : Option σ := do
  let bit ← (words s).findNextZeroBit size bit
  scan (fun s => (words s).findNextZeroBit size) body size n s bit

variable {words body size n bit s} {inv : σ → Prop}

/-- **The loops**: each has its body at every number it looks for, once and in order, as the bitmap had
    them at the start. What the body does to bits up to the one it is at makes no difference. -/
theorem bitmap_loops_fold (hb : KeepsAbove body size inv fun s => bitAt (words s))
    (hfit : ∀ s, inv s → size ≤ 64 * (words s).length) (hsize : size ≤ 2 ^ 64 - 64) (hn : size ≤ n)
    (hs : inv s) :
    forEachSetBit words body size n s = (membersFrom (bitAt (words s)) 0 size).foldlM body s ∧
    forEachSetBitFrom words body size n bit s = (membersFrom (bitAt (words s)) bit size).foldlM body s ∧
    forEachClearBit words body size n s =
      (membersFrom (fun i => !bitAt (words s) i) 0 size).foldlM body s ∧
    forEachClearBitFrom words body size n bit s =
      (membersFrom (fun i => !bitAt (words s) i) bit size).foldlM body s := by
  have hclear : KeepsAbove body size inv fun s i => !bitAt (words s) i :=
    ⟨hb.keep, fun hi h j hj => congrArg (! ·) (hb.above hi h j hj)⟩
  have hscan : ∀ start, scan (fun s => (words s).findNextBit size) body size n s
      (nextIn (bitAt (words s)) start size) = (membersFrom (bitAt (words s)) start size).foldlM body s :=
    fun start => scan_foldlM hb (fun hi => (findNextBit_eq (hfit _ hi) hsize).1) hs (by omega)
  have hscan' : ∀ start, scan (fun s => (words s).findNextZeroBit size) body size n s
      (nextIn (fun i => !bitAt (words s) i) start size) =
        (membersFrom (fun i => !bitAt (words s) i) start size).foldlM body s :=
    fun start => scan_foldlM hclear (fun hi => (findNextBit_eq (hfit _ hi) hsize).2) hs (by omega)
  have hfirst := findFirst_eq (hfit s hs) hsize
  have hnext := @findNextBit_eq (words s) size bit (hfit s hs) hsize
  refine ⟨?_, ?_, ?_, ?_⟩
  · rw [forEachSetBit, hfirst.1]
    exact hscan 0
  · rw [forEachSetBitFrom, hnext.1]
    exact hscan bit
  · rw [forEachClearBit, hfirst.2]
    exact hscan' 0
  · rw [forEachClearBitFrom, hnext.2]
    exact hscan' bit

/-- The body that clears the bit and writes it down. -/
def clearAndList (s : Bitmap × List Nat) (bit : Nat) : Option (Bitmap × List Nat) :=
  (s.1.clearBit bit).map (·, s.2 ++ [bit])

theorem clearAndList_keeps {words : Nat} (hw : 64 * words ≤ 2 ^ 31) :
    KeepsAbove clearAndList (64 * words) (fun s => s.1.length = words) fun s => bitAt s.1 where
  keep := fun {s s' bit} hi hlt h => by
    obtain ⟨addr', hc, hl, -⟩ := @bitmap_clearBit s.1 bit (by omega) (by omega)
    rw [clearAndList, hc] at h
    obtain rfl := Option.some.inj h
    exact hl.trans hi
  above := fun {s s' bit} _ h j hj => by
    -- the bit cleared is the `int` of the number
    obtain ⟨addr', hc, rfl⟩ := Option.map_eq_some_iff.mp h
    obtain ⟨m, hm, hc⟩ := Option.bind_eq_some_iff.mp hc
    obtain ⟨w, hw, hc⟩ := Option.bind_eq_some_iff.mp hc
    obtain rfl := Option.some.inj hc
    have hle := intArg_le hm
    show bitAt (List.set s.1 (m / 64) (clearBit m w)) j = bitAt s.1 j
    rw [bitAt_clearBit hw, Function.update_of_ne (by omega)]

/-- Every set bit of two words is cleared by the loop over them. -/
theorem bitmap_loops_clear :
    forEachSetBit Prod.fst clearAndList 128 128 ([9#64, 1#64], []) =
      (membersFrom (bitAt [9#64, 1#64]) 0 128).foldlM clearAndList ([9#64, 1#64], []) ∧
    forEachSetBit Prod.fst clearAndList 128 128 ([9#64, 1#64], []) = some ([0#64, 0#64], [0, 3, 64]) :=
  ⟨(@bitmap_loops_fold _ Prod.fst clearAndList 128 128 0 _ _ (@clearAndList_keeps 2 (by decide))
    (fun _ hi => by omega) (by decide) (Nat.le_refl _) rfl).1, by decide⟩

end Loops

end TensorAlloc
