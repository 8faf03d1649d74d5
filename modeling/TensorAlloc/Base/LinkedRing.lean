/-
  File:      TensorAlloc/Base/LinkedRing.lean
  Subject:   Circular doubly linked lists through pointers that may be NULL. Library: the nodes are
             of any type, no element of any particular program.

  * `Links` -- the two pointers of every node; reading through NULL is a fault (`none`);
  * `insertAfter`, `insertBefore`, `unlink` -- the pointer assignments, in order;
  * `Ring` -- from `head` the pointers `next` visit the nodes of a list and come back, and `prev`
    goes the other way;
  * `Ring.insertAfter`, `Ring.insertBefore`, `Ring.unlink` -- what the assignments do to a ring, and
    that they touch no node off it;
  * `insertAfter_unlinked`, `insertBefore_unlinked` -- a node of NULL pointers is no ring to insert
    into.
-/
import Mathlib.Data.List.Chain
import Mathlib.Data.List.Nodup
import Mathlib.Logic.Function.Basic

namespace LinkedRing

/-! ## 1. Pointers -/

/-- The pointers of every node, NULL as `none`. -/
structure Links (ν : Type) where
  prev : ν → Option ν
  next : ν → Option ν

section Assign

variable {ν : Type} [DecidableEq ν] (L : Links ν) (a b : ν) (p : Option ν)

def Links.setPrev : Links ν := { L with prev := Function.update L.prev a p }
def Links.setNext : Links ν := { L with next := Function.update L.next a p }

@[simp] theorem Links.setPrev_prev : (L.setPrev a p).prev b = if b = a then p else L.prev b := by
  simp [Links.setPrev, Function.update_apply]

@[simp] theorem Links.setNext_next : (L.setNext a p).next b = if b = a then p else L.next b := by
  simp [Links.setNext, Function.update_apply]

@[simp] theorem Links.setPrev_next : (L.setPrev a p).next = L.next := rfl
@[simp] theorem Links.setNext_prev : (L.setNext a p).prev = L.prev := rfl

/-- `item` between `list` and the node after it. -/
def insertAfter (list item : ν) : Option (Links ν) := do
  let L := L.setNext item (L.next list)
  let L := L.setPrev item (some list)
  let after ← L.next list
  let L := L.setPrev after (some item)
  pure (L.setNext list (some item))

/-- `item` between `list` and the node before it. -/
def insertBefore (list item : ν) : Option (Links ν) := do
  let L := L.setPrev item (L.prev list)
  let L := L.setNext item (some list)
  let before ← L.prev list
  let L := L.setNext before (some item)
  pure (L.setPrev list (some item))

/-- The nodes around `item` linked to each other, `item` to nothing. -/
def unlink (item : ν) : Option (Links ν) := do
  let before ← L.prev item
  let L := L.setNext before (L.next item)
  let after ← L.next item
  let L := L.setPrev after (L.prev item)
  let L := L.setNext item none
  pure (L.setPrev item none)

end Assign

/-! ## 2. Rings -/

section Ring

variable {ν : Type} {L L' : Links ν}

/-- `b` follows `a`, and `a` precedes `b`. -/
def Links.Adj (L : Links ν) (a b : ν) : Prop := L.next a = some b ∧ L.prev b = some a

/-- **From `head` through `l` and back**, each node once. -/
structure Ring (L : Links ν) (head : ν) (l : List ν) : Prop where
  nodup : (head :: l).Nodup
  path : (head :: (l ++ [head])).IsChain L.Adj

/-- A path is read from the pointers `next` of all nodes but the last, `prev` of all but the first. -/
theorem isChain_congr {w : List ν} (h : w.IsChain L.Adj)
    (hn : ∀ y ∈ w.dropLast, L'.next y = L.next y) (hp : ∀ y ∈ w.tail, L'.prev y = L.prev y) :
    w.IsChain L'.Adj := by
  induction w with
  | nil => exact .nil
  | cons a w ih =>
      cases w with
      | nil => exact .singleton a
      | cons b w =>
          obtain ⟨⟨hnext, hprev⟩, hrest⟩ := List.isChain_cons_cons.mp h
          refine List.isChain_cons_cons.mpr ⟨⟨?_, ?_⟩,
            ih hrest (fun y hy => hn y ?_) fun y hy => hp y ?_⟩
          · rw [hn a (by simp), hnext]
          · rw [hp b (by simp), hprev]
          · rw [List.dropLast_cons_of_ne_nil (by simp)]
            exact List.mem_cons_of_mem a hy
          · exact List.mem_of_mem_tail hy

/-- A ring is read from the pointers of its nodes. -/
theorem Ring.congr {head : ν} {l : List ν} (h : Ring L head l)
    (hn : ∀ y ∈ head :: l, L'.next y = L.next y) (hp : ∀ y ∈ head :: l, L'.prev y = L.prev y) :
    Ring L' head l := by
  refine ⟨h.nodup, isChain_congr h.path (fun y hy => hn y ?_) fun y hy => hp y ?_⟩
  · rwa [← List.cons_append, List.dropLast_concat] at hy
  · rw [List.tail_cons, List.mem_append, List.mem_singleton] at hy
    exact List.mem_cons.mpr hy.symm

theorem concat_eq_cons (l : List ν) (a : ν) : ∃ b t, l ++ [a] = b :: t ∧ b ∈ a :: l := by
  cases l with
  | nil => exact ⟨a, [], rfl, List.mem_cons_self⟩
  | cons b l => exact ⟨b, l ++ [a], rfl, List.mem_cons_of_mem a List.mem_cons_self⟩

/-- A node of a ring has a next one. -/
theorem Ring.next_some {head y : ν} {l : List ν} (h : Ring L head l) (hy : y ∈ head :: l) :
    ∃ c, L.next y = some c := by
  obtain ⟨l₁, l₂, he⟩ := List.append_of_mem hy
  have hpath := h.path
  rw [← List.cons_append, he, List.append_assoc, List.cons_append] at hpath
  obtain ⟨c, t, hct, -⟩ := concat_eq_cons l₂ head
  rw [hct] at hpath
  exact ⟨c, (List.isChain_append_cons_cons.mp hpath).2.1.1⟩

/-- A node whose `next` is NULL is on no ring. -/
theorem Ring.not_mem {head y : ν} {l : List ν} (h : Ring L head l) (hy : L.next y = none) :
    y ∉ head :: l := by
  intro hm
  obtain ⟨c, hc⟩ := h.next_some hm
  rw [hy] at hc
  cases hc

/-- The other way round. -/
def Links.mirror (L : Links ν) : Links ν := ⟨L.next, L.prev⟩

theorem Ring.mirror {head : ν} {l : List ν} (h : Ring L head l) : Ring L.mirror head l.reverse := by
  refine ⟨?_, ?_⟩
  · have := h.nodup
    simpa using this
  · have hpath : (head :: (l.reverse ++ [head])).IsChain fun a b => L.Adj b a := by
      have e : head :: (l.reverse ++ [head]) = (head :: (l ++ [head])).reverse := by simp
      rw [e]
      exact List.isChain_reverse.mpr h.path
    exact hpath.imp fun a b hab => ⟨hab.2, hab.1⟩

/-- The node before the item is not met again before it, nor after it. -/
theorem front_apart {head item a : ν} {l₁ l₂ m : List ν} (h : (head :: (l₁ ++ item :: l₂)).Nodup)
    (hma : head :: l₁ = m ++ [a]) :
    a ≠ item ∧ (∀ y ∈ m, y ≠ a ∧ y ≠ item) ∧ ∀ y ∈ l₂, y ≠ a ∧ y ≠ item := by
  rw [← List.cons_append, hma] at h
  obtain ⟨h1, h2, h3⟩ := List.nodup_append.mp h
  have hm := (List.nodup_append.mp h1).2.2
  have ha : a ∈ m ++ [a] := List.mem_append_right m (List.mem_singleton_self a)
  refine ⟨h3 a ha item List.mem_cons_self, fun y hy => ⟨hm y hy a (List.mem_singleton_self a), ?_⟩,
    fun y hy => ⟨fun e => ?_, fun e => ?_⟩⟩
  · exact h3 y (List.mem_append_left [a] hy) item List.mem_cons_self
  · exact h3 a ha y (List.mem_cons_of_mem item hy) e.symm
  · exact (List.nodup_cons.mp h2).1 (e ▸ hy)

/-- The same of the node after the item, the ring read backwards. -/
theorem back_apart {head item b : ν} {l₁ l₂ t : List ν} (h : (head :: (l₁ ++ item :: l₂)).Nodup)
    (hbt : l₂ ++ [head] = b :: t) :
    b ≠ item ∧ (∀ y ∈ t, y ≠ b ∧ y ≠ item) ∧ ∀ y ∈ l₁, y ≠ b ∧ y ≠ item := by
  have h' : (head :: (l₂.reverse ++ item :: l₁.reverse)).Nodup := by
    obtain ⟨h1, h2⟩ := List.nodup_cons.mp h
    have e : (l₁ ++ item :: l₂).reverse = l₂.reverse ++ item :: l₁.reverse := by simp
    rw [← e, List.nodup_cons, List.mem_reverse, List.nodup_reverse]
    exact ⟨h1, h2⟩
  have e : head :: l₂.reverse = t.reverse ++ [b] := by
    have := congrArg List.reverse hbt
    simpa using this
  obtain ⟨h1, h2, h3⟩ := front_apart h' e
  exact ⟨h1, fun y hy => h2 y (List.mem_reverse.mpr hy), fun y hy => h3 y (List.mem_reverse.mpr hy)⟩

variable [DecidableEq ν] {head item : ν} {l : List ν}

/-- `L'` has the pointers of `L` at every node but the ring's and `item`. -/
def SameOff (L L' : Links ν) (head item : ν) (l : List ν) : Prop :=
  ∀ y, y ∉ head :: l → y ≠ item → L'.next y = L.next y ∧ L'.prev y = L.prev y

/-- **Insertion after the head**: the item is the first of the ring. -/
theorem Ring.insertAfter (h : Ring L head l) (hi : item ∉ head :: l) :
    ∃ L', insertAfter L head item = some L' ∧ Ring L' head (item :: l) ∧
      SameOff L L' head item l := by
  obtain ⟨hih, hil⟩ := not_or.mp (mt List.mem_cons.mpr hi)
  obtain ⟨hhl, hnd⟩ := List.nodup_cons.mp h.nodup
  obtain ⟨y, t, hyt, hy⟩ := concat_eq_cons l head
  have hpath := h.path
  rw [hyt, List.isChain_cons_cons] at hpath
  obtain ⟨⟨hnext, hprev⟩, hrest⟩ := hpath
  have hiy : item ≠ y := by
    intro e
    subst e
    exact hi hy
  have hhi : head ≠ item := Ne.symm hih
  refine ⟨_, by
    unfold LinkedRing.insertAfter
    simp only [Links.setPrev_next, Links.setNext_next, hhi, if_false, hnext, Option.bind_eq_bind,
      Option.bind_some]
    rfl, ⟨?_, ?_⟩, fun z hz hzi => ?_⟩
  · exact List.nodup_cons.mpr ⟨List.mem_cons.not.mpr (not_or.mpr ⟨hhi, hhl⟩),
      List.nodup_cons.mpr ⟨hil, hnd⟩⟩
  · rw [List.cons_append, List.isChain_cons_cons, hyt, List.isChain_cons_cons]
    refine ⟨⟨by simp, by simp [hiy]⟩, ⟨by simp [hih], by simp⟩, ?_⟩
    have hnd' : (y :: t).Nodup := by
      rw [← hyt]
      exact List.Nodup.append hnd (List.nodup_singleton head) (by simpa using hhl)
    refine isChain_congr hrest (fun z hz => ?_) fun z hz => ?_
    · rw [← hyt, List.dropLast_concat] at hz
      have h1 : z ≠ head := fun e => hhl (e ▸ hz)
      have h2 : z ≠ item := fun e => hil (e ▸ hz)
      simp [h1, h2]
    · have h1 : z ≠ y := fun e => (List.nodup_cons.mp hnd').1 (e ▸ hz)
      have h2 : z ≠ item := by
        intro e
        subst e
        have : z ∈ l ++ [head] := hyt ▸ List.mem_cons_of_mem y hz
        rw [List.mem_append, List.mem_singleton] at this
        exact hi (List.mem_cons.mpr this.symm)
      simp [h1, h2]
  · have h1 : z ≠ head := fun e => hz (e ▸ List.mem_cons_self)
    have h2 : z ≠ y := fun e => hz (e ▸ hy)
    exact ⟨by simp [h1, hzi], by simp [h2, hzi]⟩

theorem insertBefore_mirror (L : Links ν) (list item : ν) :
    insertBefore L list item = (LinkedRing.insertAfter L.mirror list item).map Links.mirror := by
  unfold LinkedRing.insertAfter insertBefore
  simp only [Option.bind_eq_bind, Option.map_bind]
  rfl

/-- **Insertion before the head**: the item is the last of the ring. -/
theorem Ring.insertBefore (h : Ring L head l) (hi : item ∉ head :: l) :
    ∃ L', insertBefore L head item = some L' ∧ Ring L' head (l ++ [item]) ∧
      SameOff L L' head item l := by
  have hi' : item ∉ head :: l.reverse := by simpa using hi
  obtain ⟨L', hrun, hring, hoff⟩ := h.mirror.insertAfter hi'
  refine ⟨L'.mirror, by rw [insertBefore_mirror, hrun, Option.map_some], ?_, fun y hy hyi => ?_⟩
  · have := hring.mirror
    rwa [List.reverse_cons, List.reverse_reverse] at this
  · exact (hoff y (by simpa using hy) hyi).symm

/-- **Unlinking a node of the ring**: it leaves the ring, and is unlinked. -/
theorem Ring.unlink (h : Ring L head l) (hi : item ∈ l) :
    ∃ L', unlink L item = some L' ∧ Ring L' head (l.erase item) ∧ L'.next item = none ∧
      L'.prev item = none ∧ SameOff L L' head item l := by
  obtain ⟨l₁, l₂, rfl, hi₁⟩ := List.eq_append_cons_of_mem hi
  -- `a` and `b` stand before and after the item
  obtain ⟨m, a, hma⟩ : ∃ m a, head :: l₁ = m ++ [a] := by
    obtain ⟨m, a, e⟩ := List.eq_nil_or_concat (head :: l₁) |>.resolve_left (by simp)
    exact ⟨m, a, by rw [e, List.concat_eq_append]⟩
  obtain ⟨b, t, hbt, hb⟩ := concat_eq_cons l₂ head
  obtain ⟨hai, hfm, hfb⟩ := front_apart h.nodup hma
  obtain ⟨hbi, hbk, hbf⟩ := back_apart h.nodup hbt
  have hpath := h.path
  rw [List.append_assoc, List.cons_append, ← List.cons_append, hma, hbt, List.append_assoc,
    List.singleton_append, List.isChain_append_cons_cons, List.isChain_cons_cons] at hpath
  obtain ⟨hfront, ⟨hna, hpi⟩, ⟨hni, hpb⟩, hback⟩ := hpath
  refine ⟨_, by
    unfold LinkedRing.unlink
    simp only [hpi, Links.setNext_next, hai.symm, if_false, hni, Links.setNext_prev,
      Option.bind_eq_bind, Option.bind_some]
    rfl, ⟨?_, ?_⟩, by simp, by simp, fun y hy hyi => ?_⟩
  · exact List.Nodup.sublist (List.Sublist.cons_cons head List.erase_sublist) h.nodup
  · rw [List.erase_append_right _ hi₁, List.erase_cons_head, List.append_assoc, hbt,
      ← List.cons_append, hma, List.append_assoc, List.singleton_append,
      List.isChain_append_cons_cons]
    refine ⟨isChain_congr hfront (fun y hy => ?_) fun y hy => ?_, ⟨by simp [hai], by simp [hbi]⟩,
      isChain_congr hback (fun y hy => ?_) fun y hy => ?_⟩
    · rw [List.dropLast_concat] at hy
      simp [hfm y hy]
    · rw [← hma, List.tail_cons] at hy
      simp [hbf y hy]
    · rw [← hbt, List.dropLast_concat] at hy
      simp [hfb y hy]
    · rw [List.tail_cons] at hy
      simp [hbk y hy]
  · have ha : a ∈ head :: l₁ := hma ▸ List.mem_append_right m (List.mem_singleton_self a)
    have h1 : y ≠ a := by
      intro e
      subst e
      exact hy (List.mem_cons.mpr ((List.mem_cons.mp ha).imp_right (List.mem_append_left _)))
    have h2 : y ≠ b := by
      intro e
      subst e
      exact hy (List.mem_cons.mpr ((List.mem_cons.mp hb).imp_right fun hm =>
        List.mem_append_right _ (List.mem_cons_of_mem _ hm)))
    exact ⟨by simp [h1, hyi], by simp [h2, hyi]⟩

/-- A node without pointers is no ring to insert into. -/
theorem insertAfter_unlinked {list : ν} (hne : item ≠ list) (h : L.next list = none) :
    LinkedRing.insertAfter L list item = none := by
  unfold LinkedRing.insertAfter
  simp [hne.symm, h]

theorem insertBefore_unlinked {list : ν} (hne : item ≠ list) (h : L.prev list = none) :
    LinkedRing.insertBefore L list item = none := by
  unfold LinkedRing.insertBefore
  simp [hne.symm, h]

theorem unlink_unlinked (h : L.prev item = none) : LinkedRing.unlink L item = none := by
  unfold LinkedRing.unlink
  rw [h]
  rfl

end Ring

end LinkedRing
