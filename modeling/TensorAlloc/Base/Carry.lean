/-
  File:      TensorAlloc/Base/Carry.lean
  Subject:   A charge on the first of a row of counters, and one unit on the next whenever a counter is
             used up. Library: no counter of any particular program.

  * `due` -- what a counter is charged when its turn comes;
  * `reach` -- how many leading counters are used up; `spend` -- the counters afterwards;
  * `spend_eq` -- zeros as far as the charge reaches, one counter lowered, the others as they were;
  * `due_lt` -- the counter where it stops keeps something.
-/
import Mathlib.Data.List.Basic

namespace Carry

/-- What the counter at a place is charged: the first all of it, each further one a unit. -/
def due (q : Nat) : Nat → Nat
  | 0 => q
  | _ + 1 => 1

/-- How many leading counters reach 0. -/
def reach : Nat → List Nat → Nat
  | _, [] => 0
  | q, c :: cs => if c = q then reach 1 cs + 1 else 0

/-- The counters after the charge. -/
def spend : Nat → List Nat → List Nat
  | _, [] => []
  | q, c :: cs => if c = q then 0 :: spend 1 cs else (c - q) :: cs

variable {q c : Nat} {cs : List Nat}

@[simp] theorem reach_self (q : Nat) (cs : List Nat) : reach q (q :: cs) = reach 1 cs + 1 := if_pos rfl

theorem reach_of_ne (h : c ≠ q) (cs : List Nat) : reach q (c :: cs) = 0 := if_neg h

@[simp] theorem spend_self (q : Nat) (cs : List Nat) : spend q (q :: cs) = 0 :: spend 1 cs := if_pos rfl

theorem spend_of_ne (h : c ≠ q) (cs : List Nat) : spend q (c :: cs) = (c - q) :: cs := if_neg h

/-- Past the first counter the charge is the unit, whatever it began with. -/
theorem due_one (q n : Nat) : due 1 n = due q (n + 1) := by
  cases n <;> rfl

/-- **How far the charge goes**: zeros, one counter lowered, and the rest as it was. -/
theorem spend_eq (q : Nat) (cs : List Nat) :
    spend q cs = List.replicate (reach q cs) 0 ++
      (cs.drop (reach q cs)).modifyHead fun c => c - due q (reach q cs) := by
  induction cs generalizing q with
  | nil => rfl
  | cons c cs ih =>
      by_cases h : c = q
      · subst h
        rw [spend_self, reach_self, ih 1, List.replicate_succ, List.drop_succ_cons, due_one c,
          List.cons_append]
      · rw [spend_of_ne h, reach_of_ne h]
        rfl

/-- **The counter where it stops keeps something**, if the charge fits the first counter and no
    counter is at 0. -/
theorem due_lt (hq : ∀ c ∈ cs.head?, q ≤ c) (hpos : ∀ c ∈ cs, 0 < c) :
    ∀ c ∈ (cs.drop (reach q cs)).head?, due q (reach q cs) < c := by
  induction cs generalizing q with
  | nil => exact fun c hc => by cases hc
  | cons a cs ih =>
      by_cases h : a = q
      · subst h
        rw [reach_self, List.drop_succ_cons, ← due_one a]
        refine ih (fun c hc => ?_) fun c hc => hpos c (List.mem_cons_of_mem a hc)
        exact hpos c (List.mem_cons_of_mem a (List.mem_of_mem_head? hc))
      · rw [reach_of_ne h]
        intro c hc
        obtain rfl := Option.some.inj hc
        exact Nat.lt_of_le_of_ne (hq a rfl) (Ne.symm h)

end Carry
