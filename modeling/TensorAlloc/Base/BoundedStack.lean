/-
  File:      TensorAlloc/Base/BoundedStack.lean
  Subject:   A stack that holds fewer than a given number of elements: the push that would fill it
             drops the oldest one. Library: no list of any particular program.

  * `Ledger` -- the elements pushed, kept, popped and dropped, the latest first;
  * `Step` -- a push with room, a push that drops, a pop;
  * `Sound` -- each push is in one of the three places, and what is kept is ordered by its last push
    (`sound_of_run`).
-/
import Mathlib.Data.List.Basic
import Mathlib.Data.List.Perm.Basic
import Mathlib.Logic.Relation

namespace BoundedStack

/-- What became of the elements pushed. -/
structure Ledger (α : Type*) where
  pushed : List α
  kept : List α
  popped : List α
  dropped : List α

variable {α : Type*} [DecidableEq α] {cap : Nat} {L L' : Ledger α} {a last : α} {rest : List α}

def Ledger.start : Ledger α := ⟨[], [], [], []⟩

/-- One operation. An element is pushed only while it is not kept. -/
inductive Step (cap : Nat) : Ledger α → Ledger α → Prop
  | push {L : Ledger α} {a : α} (hnew : a ∉ L.kept) (hroom : L.kept.length + 1 < cap) :
      Step cap L { L with pushed := a :: L.pushed, kept := a :: L.kept }
  | drop {L : Ledger α} {a last : α} {rest : List α} (hnew : a ∉ L.kept)
      (hfull : cap ≤ L.kept.length + 1) (h : a :: L.kept = rest ++ [last]) :
      Step cap L { L with pushed := a :: L.pushed, kept := rest, dropped := last :: L.dropped }
  | pop {L : Ledger α} {a : α} {rest : List α} (h : L.kept = a :: rest) :
      Step cap L { L with kept := rest, popped := a :: L.popped }

/-- Fewer than `cap` elements kept; each push in one place; the kept ones by their last push, the
    latest first. -/
structure Sound (cap : Nat) (L : Ledger α) : Prop where
  bounded : L.kept.length < cap
  whole : L.pushed.Perm (L.kept ++ (L.popped ++ L.dropped))
  recent : L.kept.Pairwise fun a b => L.pushed.idxOf a < L.pushed.idxOf b

theorem sound_start (hc : 0 < cap) : Sound cap (Ledger.start : Ledger α) :=
  ⟨hc, List.Perm.refl _, List.Pairwise.nil⟩

/-- A push puts the element before those kept. -/
theorem Sound.recent_push (hS : Sound cap L) (hnew : a ∉ L.kept) :
    (a :: L.kept).Pairwise fun b c => (a :: L.pushed).idxOf b < (a :: L.pushed).idxOf c := by
  have hidx : ∀ b ∈ L.kept, (a :: L.pushed).idxOf b = L.pushed.idxOf b + 1 := fun b hb =>
    List.idxOf_cons_ne _ fun e => hnew (e ▸ hb)
  refine List.pairwise_cons.mpr ⟨fun b hb => ?_, hS.recent.imp_of_mem fun hb hc h => ?_⟩
  · rw [hidx b hb, List.idxOf_cons_self]
    exact Nat.succ_pos _
  · rw [hidx _ hb, hidx _ hc]
    exact Nat.succ_lt_succ h

/-- **One operation keeps the ledger sound.** -/
theorem Step.sound (h : Step cap L L') (hS : Sound cap L) : Sound cap L' := by
  cases h with
  | push hnew hroom => exact ⟨hroom, hS.whole.cons _, hS.recent_push hnew⟩
  | @drop a last rest hnew hfull h =>
      have hrecent := hS.recent_push hnew
      rw [h] at hrecent
      have hlen : L.kept.length + 1 = rest.length + 1 := by
        rw [← List.length_cons, h, List.length_append]
        rfl
      have hwhole := hS.whole.cons a
      rw [← List.cons_append, h, List.append_assoc, List.singleton_append] at hwhole
      refine ⟨Nat.succ.inj hlen ▸ hS.bounded, hwhole.trans ?_, (List.pairwise_append.mp hrecent).1⟩
      exact List.perm_middle.symm.append_left rest
  | @pop a rest h =>
      have hrecent := hS.recent
      have hwhole := hS.whole
      have hbounded := hS.bounded
      rw [h] at hrecent hwhole hbounded
      exact ⟨Nat.lt_of_succ_lt hbounded, hwhole.trans List.perm_middle.symm,
        (List.pairwise_cons.mp hrecent).2⟩

/-- **A run from the empty stack is sound.** -/
theorem sound_of_run (hc : 0 < cap)
    (h : Relation.ReflTransGen (Step cap) (Ledger.start : Ledger α) L) : Sound cap L := by
  induction h with
  | refl => exact sound_start hc
  | tail _ hstep ih => exact hstep.sound ih

/-- What is kept is kept once. -/
theorem Sound.nodup (hS : Sound cap L) : L.kept.Nodup := by
  refine hS.recent.imp fun {a b} hlt e => ?_
  rw [e] at hlt
  exact Nat.lt_irrefl _ hlt

/-- What a pop gives is the latest kept. -/
theorem Sound.head_latest (hS : Sound cap L) (h : L.kept = a :: rest) :
    ∀ b ∈ L.kept, L.pushed.idxOf a ≤ L.pushed.idxOf b := by
  have hrecent := hS.recent
  rw [h] at hrecent ⊢
  intro b hb
  rcases List.mem_cons.mp hb with rfl | hb
  · exact Nat.le_refl _
  · exact Nat.le_of_lt ((List.pairwise_cons.mp hrecent).1 b hb)

/-- What a push drops is the oldest of `cap` elements. -/
theorem Sound.last_oldest (hS : Sound cap L) (hnew : a ∉ L.kept) (h : a :: L.kept = rest ++ [last]) :
    ∀ b ∈ a :: L.kept, (a :: L.pushed).idxOf b ≤ (a :: L.pushed).idxOf last := by
  have hrecent := hS.recent_push hnew
  rw [h] at hrecent ⊢
  intro b hb
  rcases List.mem_append.mp hb with hb | hb
  · exact Nat.le_of_lt ((List.pairwise_append.mp hrecent).2.2 b hb last List.mem_cons_self)
  · obtain rfl := List.mem_singleton.mp hb
    exact Nat.le_refl _

end BoundedStack
