/-
  File:      TensorAlloc/Base/FieldStore.lean
  Subject:   A store of independent fields, and what it holds after a sequence of writes. Library: no
             store of any particular program.

  * `Fields` -- reads, writes, and the two laws: a field reads back what was written, cut to what it
    can hold, and a write to another field leaves it alone;
  * `Fields.get_run` -- after any writes a field holds the last one to it.
-/
import Mathlib.Data.Option.Basic

namespace FieldStore

/-- Stores `σ` with fields `ι` that hold values `α`. -/
structure Fields (σ ι α : Type*) where
  get : ι → σ → α
  set : ι → α → σ → σ
  cut : ι → α → α
  get_set_same : ∀ f v s, get f (set f v s) = cut f v
  get_set_other : ∀ f g v s, f ≠ g → get f (set g v s) = get f s

variable {σ ι α : Type*} [DecidableEq ι]

/-- The value written last to a field. -/
def lastWrite (f : ι) : List (ι × α) → Option α
  | [] => none
  | w :: ws => (lastWrite f ws).or (if f = w.1 then some w.2 else none)

/-- The store after the writes. -/
def Fields.run (F : Fields σ ι α) (s : σ) : List (ι × α) → σ
  | [] => s
  | w :: ws => F.run (F.set w.1 w.2 s) ws

/-- **The last write to a field stands.** -/
theorem Fields.get_run (F : Fields σ ι α) (f : ι) (ws : List (ι × α)) (s : σ) :
    F.get f (F.run s ws) = ((lastWrite f ws).map (F.cut f)).getD (F.get f s) := by
  induction ws generalizing s with
  | nil => rfl
  | cons w ws ih =>
      rw [run, ih, lastWrite]
      cases lastWrite f ws with
      | some v => rfl
      | none =>
          rw [Option.none_or, Option.map_none, Option.getD_none]
          by_cases h : f = w.1
          · rw [if_pos h, h, F.get_set_same]
            rfl
          · rw [if_neg h, F.get_set_other f w.1 w.2 s h]
            rfl

end FieldStore
