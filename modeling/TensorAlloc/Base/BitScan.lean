/-
  File:      TensorAlloc/Base/BitScan.lean
  Subject:   The members of a set of numbers below a bound, found one after another. Library: the set is
             any predicate, no bitmap of any particular program.

  * `nextIn` -- the least member from a start, the bound where there is none;
  * `nextIn_eq`, `nextIn_spec` -- what makes a number that one; `nextIn_skip` -- numbers passed over;
  * `scan` -- from each member on to the next, a body at each; `scan_foldlM` -- the fold over the
    members, though the body changes the set up to where it is;
  * `bitAt`, `nextIn_word`, `nextIn_zeros` -- a set in words of 64 bits: a word with a one, or without.
-/
import Mathlib.Data.List.Range
import TensorAlloc.Base.BitSearch

namespace BitSearch

/-! ## 1. The next member -/

/-- The least `i` from `start` on with `p i`, or `n`. -/
def nextIn (p : Nat → Bool) (start n : Nat) : Nat := ((List.range' start (n - start)).find? p).getD n

section Next

variable {p : Nat → Bool} {start m n r : Nat}

theorem range_split (h1 : start ≤ r) (h2 : r ≤ n) :
    List.range' start (n - start) = List.range' start (r - start) ++ List.range' r (n - r) := by
  have h := @List.range'_append start (r - start) (n - r) 1
  rw [Nat.one_mul, Nat.add_sub_cancel' h1, show r - start + (n - r) = n - start by omega] at h
  exact h.symm

/-- **The next member**, by what it is. -/
theorem nextIn_eq (h1 : start ≤ r) (h2 : r ≤ n) (hz : ∀ j, start ≤ j → j < r → p j = false)
    (hp : r < n → p r = true) : nextIn p start n = r := by
  have hnone : (List.range' start (r - start)).find? p = none := by
    refine List.find?_eq_none.mpr fun j hj => ?_
    obtain ⟨hj1, hj2⟩ := List.mem_range'_1.mp hj
    rw [hz j hj1 (by omega)]
    exact Bool.false_ne_true
  unfold nextIn
  rw [range_split h1 h2, List.find?_append, hnone, Option.none_or]
  rcases Nat.lt_or_eq_of_le h2 with hlt | rfl
  · obtain ⟨k, hk⟩ := Nat.exists_eq_add_of_lt hlt
    rw [show n - r = k + 1 by omega, List.range'_succ, List.find?_cons_of_pos (hp hlt)]
    rfl
  · rw [Nat.sub_self]
    rfl

theorem nextIn_of_le (h : n ≤ start) : nextIn p start n = n := by
  unfold nextIn
  rw [Nat.sub_eq_zero_of_le h]
  rfl

/-- What the next member is. -/
theorem nextIn_spec (h : start ≤ n) : start ≤ nextIn p start n ∧ nextIn p start n ≤ n ∧
    (∀ j, start ≤ j → j < nextIn p start n → p j = false) ∧
    (nextIn p start n < n → p (nextIn p start n) = true) := by
  by_cases hex : ∃ r, start ≤ r ∧ r < n ∧ p r = true
  · classical
    obtain ⟨h1, h2, h3⟩ := Nat.find_spec hex
    have hz : ∀ j, start ≤ j → j < Nat.find hex → p j = false := fun j hj hlt =>
      Bool.eq_false_of_not_eq_true fun hp => Nat.find_min hex hlt ⟨hj, by omega, hp⟩
    rw [nextIn_eq h1 (Nat.le_of_lt h2) hz fun _ => h3]
    exact ⟨h1, Nat.le_of_lt h2, hz, fun _ => h3⟩
  · have hz : ∀ j, start ≤ j → j < n → p j = false := fun j hj hlt =>
      Bool.eq_false_of_not_eq_true fun hp => hex ⟨j, hj, hlt, hp⟩
    rw [nextIn_eq h (Nat.le_refl n) hz fun hlt => absurd hlt (Nat.lt_irrefl n)]
    exact ⟨h, Nat.le_refl n, hz, fun hlt => absurd hlt (Nat.lt_irrefl n)⟩

/-- Numbers that are no members are passed over. -/
theorem nextIn_skip (hm : start ≤ m) (hz : ∀ j, start ≤ j → j < m → p j = false) :
    nextIn p start n = nextIn p m n := by
  rcases Nat.lt_or_ge n m with hlt | hn
  · rw [nextIn_of_le (Nat.le_of_lt hlt)]
    rcases Nat.lt_or_ge n start with h | h
    · exact nextIn_of_le (Nat.le_of_lt h)
    · exact nextIn_eq h (Nat.le_refl n) (fun j hj hjn => hz j hj (Nat.lt_trans hjn hlt))
        fun h => absurd h (Nat.lt_irrefl n)
  · obtain ⟨h1, h2, h3, h4⟩ := @nextIn_spec p m n hn
    refine nextIn_eq (Nat.le_trans hm h1) h2 (fun j hj hlt => ?_) h4
    rcases Nat.lt_or_ge j m with hjm | hjm
    · exact hz j hj hjm
    · exact h3 j hjm hlt

end Next

/-! ## 2. One member after another -/

section Scan

variable {σ : Type} (next : σ → Nat → Option Nat) (body : σ → Nat → Option σ) (n : Nat)

/-- The body at `bit` and at every member a search finds from there, each search in the set as the body
    left it. At most `k` rounds. -/
def scan : Nat → σ → Nat → Option σ
  | 0, s, bit => if bit < n then none else some s
  | k + 1, s, bit =>
      if bit < n then do
        let s ← body s bit
        let bit ← next s (bit + 1)
        scan k s bit
      else some s

/-- The body keeps `inv`, and changes the set up to where it is only. -/
structure KeepsAbove (inv : σ → Prop) (sets : σ → Nat → Bool) : Prop where
  keep : ∀ {s s' bit}, inv s → bit < n → body s bit = some s' → inv s'
  above : ∀ {s s' bit}, inv s → body s bit = some s' → ∀ j, bit < j → sets s' j = sets s j

/-- The members from `start` on. -/
def membersFrom (p : Nat → Bool) (start n : Nat) : List Nat := (List.range' start (n - start)).filter p

variable {next body n} {inv : σ → Prop} {sets : σ → Nat → Bool} {p q : Nat → Bool} {start k : Nat} {s : σ}

theorem membersFrom_congr (h : ∀ j, start ≤ j → p j = q j) :
    membersFrom p start n = membersFrom q start n :=
  List.filter_congr fun j hj => h j (List.mem_range'_1.mp hj).1

theorem membersFrom_of_le (h : n ≤ start) : membersFrom p start n = [] := by
  unfold membersFrom
  rw [Nat.sub_eq_zero_of_le h]
  rfl

/-- The members are the next one and those after it. -/
theorem membersFrom_next (h : start ≤ n) : membersFrom p start n =
    if nextIn p start n < n then nextIn p start n :: membersFrom p (nextIn p start n + 1) n else [] := by
  obtain ⟨h1, h2, h3, h4⟩ := @nextIn_spec p start n h
  generalize nextIn p start n = r at h1 h2 h3 h4 ⊢
  have hnone : (List.range' start (r - start)).filter p = [] := by
    refine List.filter_eq_nil_iff.mpr fun j hj => ?_
    obtain ⟨hj1, hj2⟩ := List.mem_range'_1.mp hj
    rw [h3 j hj1 (by omega)]
    exact Bool.false_ne_true
  unfold membersFrom
  rw [range_split h1 h2, List.filter_append, hnone, List.nil_append]
  split
  · next hlt =>
      obtain ⟨k, hk⟩ := Nat.exists_eq_add_of_lt hlt
      rw [show n - r = k + 1 by omega, List.range'_succ, List.filter_cons_of_pos (h4 hlt),
        show n - (r + 1) = k by omega]
  · next hge =>
      rw [show n - r = 0 by omega]
      rfl

/-- **The scan is the fold over the members**, as they were when it started. -/
theorem scan_foldlM (hb : KeepsAbove body n inv sets)
    (hf : ∀ {s start}, inv s → next s start = some (nextIn (sets s) start n)) (hi : inv s)
    (hk : n - start ≤ k) :
    scan next body n k s (nextIn (sets s) start n) = (membersFrom (sets s) start n).foldlM body s := by
  induction k generalizing s start with
  | zero =>
      have hge : n ≤ start := Nat.le_of_sub_eq_zero (Nat.le_zero.mp hk)
      rw [nextIn_of_le hge, membersFrom_of_le hge, scan, if_neg (Nat.lt_irrefl n)]
      rfl
  | succ k ih =>
      rcases Nat.lt_or_ge n start with hge | hle
      · rw [nextIn_of_le (Nat.le_of_lt hge), membersFrom_of_le (Nat.le_of_lt hge), scan,
          if_neg (Nat.lt_irrefl n)]
        rfl
      · rw [membersFrom_next hle, scan]
        split
        · next hlt =>
            have hr := (@nextIn_spec (sets s) start n hle).1
            generalize nextIn (sets s) start n = r at hlt hr ⊢
            rw [List.foldlM_cons]
            cases hs : body s r with
            | none => rfl
            | some s' =>
                have hi' := hb.keep hi hlt hs
                have hrest := @ih (r + 1) s' hi' (by omega)
                rw [membersFrom_congr fun j hj => hb.above hi hs j hj] at hrest
                simp only [Option.bind_eq_bind, Option.bind_some, hf hi']
                exact hrest
        · rfl

end Scan

/-! ## 3. A set in words -/

/-- Bit `i` of a row of words, `false` past its end. -/
def bitAt (ws : List (BitVec 64)) (i : Nat) : Bool := (ws.getD (i / 64) 0#64).getLsbD (i % 64)

/-- `w` has the members of `p` among the 64 numbers from `64 * k`, those below `start` left out. -/
def IsWord (p : Nat → Bool) (start k : Nat) (w : BitVec 64) : Prop :=
  ∀ q < 64, w.getLsbD q = (decide (start ≤ 64 * k + q) && p (64 * k + q))

section Words

variable {p : Nat → Bool} {start k n q : Nat} {w : BitVec 64}

theorem IsWord.eq_false (h : IsWord p start k w) {j : Nat} (hk : 64 * k ≤ j) (hj : j < 64 * (k + 1))
    (hs : start ≤ j) (hz : w.getLsbD (j - 64 * k) = false) : p j = false := by
  have hbit := h (j - 64 * k) (by omega)
  rwa [Nat.add_sub_cancel' hk, decide_eq_true hs, Bool.true_and, hz, eq_comm] at hbit

/-- A word with a one has the next member. -/
theorem nextIn_word (h : IsWord p start k w) (hk : 64 * k ≤ start) (hn : start ≤ n) (hq : Lowest w q) :
    nextIn p start n = min (64 * k + q) n := by
  have hlt : q < 64 := BitVec.lt_of_getLsbD hq.one
  have hbit := h q hlt
  rw [hq.one, eq_comm, Bool.and_eq_true, decide_eq_true_eq] at hbit
  refine nextIn_eq (Nat.le_min.mpr ⟨hbit.1, hn⟩) (Nat.min_le_right _ _) (fun j hj hjq => ?_) fun hlt => ?_
  · exact h.eq_false (Nat.le_trans hk hj) (by omega) hj (hq.zeros _ (by omega))
  · rw [Nat.min_eq_left (by omega)]
    exact hbit.2

/-- A word without one is passed over. -/
theorem nextIn_zeros (h : IsWord p start k 0#64) (hk : 64 * k ≤ start) (hs : start ≤ 64 * (k + 1)) :
    nextIn p start n = nextIn p (64 * (k + 1)) n :=
  nextIn_skip hs fun _ hj hlt => h.eq_false (Nat.le_trans hk hj) hlt hj BitVec.getLsbD_zero

end Words

end BitSearch
