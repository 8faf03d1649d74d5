/-
  File:      TensorAlloc/Base/RingWalk.lean
  Subject:   Reading a ring of pointers, and walking it while the body takes nodes off. Library: the
             nodes are of any type, no element of any particular program.

  * `peekHead`, `peekTail`, `peekNext`, `peekPrev` -- the ends and the neighbours, NULL past an end;
  * `Ring.peekHead` .. `Ring.peekPrev` -- what they read of a ring, as of a sequence;
  * `walk`, `walkSafe` -- until NULL, the next node read after the body or before it;
  * `cycle`, `cycleSafe` -- until the head comes back;
  * `walkSafe_foldlM`, `cycleSafe_foldlM` -- with the next node read before, the body may take its node
    off: the loop is the fold over the nodes as they were;
  * `walk_foldlM`, `cycle_foldlM` -- with the next node read after, that holds where the ring stays;
  * `visit_foldlM`, `walk_visit`, `cycle_visit` -- a body that takes some nodes off: all are visited; the
    first one taken off is the last one visited; it is a fault.
-/
import TensorAlloc.Base.LinkedRing
import Mathlib.Data.List.Basic

namespace LinkedRing

/-! ## 1. Reads -/

section Reads

variable {ν : Type} [DecidableEq ν] (L : Links ν) (list node : ν)

/-- The first node, NULL where the head is its own. -/
def peekHead : Option ν := if L.next list = some list then none else L.next list

/-- The last node. -/
def peekTail : Option ν := if L.prev list = some list then none else L.prev list

/-- The node after, NULL after the last. -/
def peekNext : Option ν := if L.prev list = some node then none else L.next node

/-- The node before, NULL before the first. -/
def peekPrev : Option ν := if L.next list = some node then none else L.prev node

theorem peekTail_mirror : peekTail L list = peekHead L.mirror list := rfl

theorem peekPrev_mirror : peekPrev L list node = peekNext L.mirror list node := rfl

end Reads

section Neighbours

variable {ν : Type} {L : Links ν} {head a : ν} {l l₁ l₂ : List ν}

/-- The head's `next`. -/
theorem Ring.next_head (h : Ring L head l) : L.next head = some (l.head?.getD head) := by
  have hpath := h.path
  cases l with
  | nil => exact (List.isChain_cons_cons.mp hpath).1.1
  | cons b l => exact (List.isChain_cons_cons.mp hpath).1.1

/-- The `next` of a node, by what follows it. -/
theorem Ring.next_mid (h : Ring L head (l₁ ++ a :: l₂)) : L.next a = some (l₂.head?.getD head) := by
  have hpath := h.path
  rw [List.append_assoc, List.cons_append, ← List.cons_append] at hpath
  cases l₂ with
  | nil => exact (List.isChain_append_cons_cons.mp hpath).2.1.1
  | cons b l₂ => exact (List.isChain_append_cons_cons.mp hpath).2.1.1

/-- The head's `prev`. -/
theorem Ring.prev_head (h : Ring L head l) : L.prev head = some (l.getLast?.getD head) := by
  have hm := h.mirror.next_head
  rwa [List.head?_reverse] at hm

/-- A node of the ring is not its head. -/
theorem Ring.ne_head (h : Ring L head l) (ha : a ∈ l) : a ≠ head := fun e =>
  (List.nodup_cons.mp h.nodup).1 (e ▸ ha)

theorem Ring.some_ne_head (h : Ring L head (l₁ ++ a :: l₂)) : some a ≠ some head := fun e =>
  h.ne_head (List.mem_append_right l₁ List.mem_cons_self) (Option.some.inj e)

variable [DecidableEq ν]

theorem Ring.peekHead (h : Ring L head l) : peekHead L head = l.head? := by
  unfold LinkedRing.peekHead
  rw [h.next_head]
  cases l with
  | nil => exact if_pos rfl
  | cons b l => exact if_neg fun e => h.ne_head List.mem_cons_self (Option.some.inj e)

theorem Ring.peekTail (h : Ring L head l) : peekTail L head = l.getLast? := by
  rw [peekTail_mirror, h.mirror.peekHead, List.head?_reverse]

/-- **The node after**: the first of what follows. -/
theorem Ring.peekNext (h : Ring L head (l₁ ++ a :: l₂)) : peekNext L head a = l₂.head? := by
  unfold LinkedRing.peekNext
  rw [h.prev_head, h.next_mid]
  cases l₂ with
  | nil => exact if_pos (by simp)
  | cons b l₂ =>
      refine if_neg fun e => ?_
      -- the last node is one of those after `a`
      have hlast : (l₁ ++ a :: b :: l₂).getLast?.getD head ∈ b :: l₂ := by
        rw [List.getLast?_append_cons, List.getLast?_cons_cons, List.getLast?_cons, Option.getD_some]
        cases hl : l₂.getLast? with
        | none => exact List.mem_cons_self
        | some c => exact List.mem_cons_of_mem b (List.mem_of_getLast? hl)
      rw [Option.some.inj e] at hlast
      exact (List.nodup_cons.mp (List.nodup_append.mp (List.nodup_cons.mp h.nodup).2).2.1).1 hlast

/-- **The node before**: the last of what precedes. -/
theorem Ring.peekPrev (h : Ring L head (l₁ ++ a :: l₂)) : peekPrev L head a = l₁.getLast? := by
  have hm := h.mirror
  rw [List.reverse_append, List.reverse_cons, List.append_assoc, List.singleton_append] at hm
  rw [peekPrev_mirror, hm.peekNext, List.head?_reverse]

end Neighbours

/-! ## 2. Walks -/

section Walks

variable {ν σ : Type} [DecidableEq ν] (links : σ → Links ν) (body : σ → ν → Option σ) (list : ν)

/-- Until NULL, the next node read after the body. At most `n` rounds. -/
def walk : Nat → σ → Option ν → Option σ
  | _, s, none => some s
  | 0, _, some _ => none
  | n + 1, s, some node => do
      let s ← body s node
      walk n s (peekNext (links s) list node)

/-- Until NULL, the next node `temp` read before the body. -/
def walkSafe : Nat → σ → Option ν → Option ν → Option σ
  | _, s, none, _ => some s
  | 0, _, some _, _ => none
  | n + 1, s, some node, temp => do
      let s ← body s node
      walkSafe n s temp (temp.bind (peekNext (links s) list))

/-- Until the head, the next node read after the body; NULL is not the head, and read through. -/
def cycle : Nat → σ → Option ν → Option σ
  | 0, s, node => if node = some list then some s else none
  | n + 1, s, node =>
      if node = some list then some s
      else do
        let node ← node
        let s ← body s node
        cycle n s ((links s).next node)

/-- Until the head, the next node `temp` read before the body. -/
def cycleSafe : Nat → σ → Option ν → Option ν → Option σ
  | 0, s, node, _ => if node = some list then some s else none
  | n + 1, s, node, temp =>
      if node = some list then some s
      else do
        let node ← node
        let s ← body s node
        let temp ← temp
        cycleSafe n s (some temp) ((links s).next temp)

/-- A body that takes off the nodes `del` says, and notes every node it is given. -/
def visit (del : ν → Bool) (s : Links ν × List ν) (node : ν) : Option (Links ν × List ν) :=
  if del node then (unlink s.1 node).map fun L => (L, s.2 ++ [node]) else some (s.1, s.2 ++ [node])

end Walks

section Folds

variable {ν σ : Type} [DecidableEq ν] {links : σ → Links ν} {body : σ → ν → Option σ} {head : ν}
  {n : Nat} {s : σ} {kept rest : List ν}

/-- The body leaves the ring of `l` as it is. -/
def KeepsRing (links : σ → Links ν) (body : σ → ν → Option σ) (head : ν) (l : List ν) : Prop :=
  ∀ s s' node, Ring (links s) head l → node ∈ l → body s node = some s' → Ring (links s') head l

/-- The body leaves what follows its node. -/
def KeepsRest (links : σ → Links ν) (body : σ → ν → Option σ) (head : ν) : Prop :=
  ∀ s s' node kept rest, Ring (links s) head (kept ++ node :: rest) → body s node = some s' →
    ∃ kept', Ring (links s') head (kept' ++ rest)

/-- **The walk is the fold.** -/
theorem walk_foldlM (hb : KeepsRing links body head (kept ++ rest)) (h : Ring (links s) head (kept ++ rest))
    (hn : rest.length ≤ n) : walk links body head n s rest.head? = rest.foldlM body s := by
  induction rest generalizing n s kept with
  | nil => cases n <;> rfl
  | cons a rest ih =>
      obtain ⟨n, rfl⟩ := Nat.exists_eq_add_of_le' (Nat.le_trans (Nat.le_add_left 1 rest.length) hn)
      rw [List.head?_cons, walk, List.foldlM_cons]
      cases hs : body s a with
      | none => rfl
      | some s' =>
          have h' := hb s s' a h (List.mem_append_right kept List.mem_cons_self) hs
          show walk links body head n s' (peekNext (links s') head a) = rest.foldlM body s'
          rw [h'.peekNext]
          rw [List.append_cons] at h' hb
          exact ih hb h' (Nat.le_of_succ_le_succ hn)

/-- **So is the safe walk, also where the body takes its node off.** -/
theorem walkSafe_foldlM (hb : KeepsRest links body head) (h : Ring (links s) head (kept ++ rest))
    (hn : rest.length ≤ n) :
    walkSafe links body head n s rest.head? rest.tail.head? = rest.foldlM body s := by
  induction rest generalizing n s kept with
  | nil => cases n <;> rfl
  | cons a rest ih =>
      obtain ⟨n, rfl⟩ := Nat.exists_eq_add_of_le' (Nat.le_trans (Nat.le_add_left 1 rest.length) hn)
      rw [List.head?_cons, List.tail_cons, walkSafe, List.foldlM_cons]
      cases hs : body s a with
      | none => rfl
      | some s' =>
          obtain ⟨kept', h'⟩ := hb s s' a kept rest h hs
          have hnext : rest.head?.bind (peekNext (links s') head) = rest.tail.head? := by
            cases rest with
            | nil => rfl
            | cons b rest => exact h'.peekNext
          show walkSafe links body head n s' rest.head? (rest.head?.bind (peekNext (links s') head)) = _
          rw [hnext]
          exact ih h' (Nat.le_of_succ_le_succ hn)

/-- **The cycle is the fold.** -/
theorem cycle_foldlM (hb : KeepsRing links body head (kept ++ rest)) (h : Ring (links s) head (kept ++ rest))
    (hn : rest.length ≤ n) :
    cycle links body head n s (some (rest.head?.getD head)) = rest.foldlM body s := by
  induction rest generalizing n s kept with
  | nil => cases n <;> exact if_pos rfl
  | cons a rest ih =>
      obtain ⟨n, rfl⟩ := Nat.exists_eq_add_of_le' (Nat.le_trans (Nat.le_add_left 1 rest.length) hn)
      rw [List.head?_cons, Option.getD_some, cycle, if_neg h.some_ne_head, List.foldlM_cons]
      cases hs : body s a with
      | none => simp only [Option.bind_eq_bind, Option.bind_some, hs, Option.bind_none]
      | some s' =>
          have h' := hb s s' a h (List.mem_append_right kept List.mem_cons_self) hs
          simp only [Option.bind_eq_bind, Option.bind_some, hs]
          rw [h'.next_mid]
          rw [List.append_cons] at h' hb
          exact ih hb h' (Nat.le_of_succ_le_succ hn)

/-- **So is the safe cycle, also where the body takes its node off.** -/
theorem cycleSafe_foldlM (hb : KeepsRest links body head) (h : Ring (links s) head (kept ++ rest))
    (hn : rest.length ≤ n) :
    cycleSafe links body head n s (some (rest.head?.getD head))
      ((links s).next (rest.head?.getD head)) = rest.foldlM body s := by
  induction rest generalizing n s kept with
  | nil => cases n <;> exact if_pos rfl
  | cons a rest ih =>
      obtain ⟨n, rfl⟩ := Nat.exists_eq_add_of_le' (Nat.le_trans (Nat.le_add_left 1 rest.length) hn)
      rw [List.head?_cons, Option.getD_some, cycleSafe, if_neg h.some_ne_head, List.foldlM_cons,
        h.next_mid]
      cases hs : body s a with
      | none => simp only [Option.bind_eq_bind, Option.bind_some, hs, Option.bind_none]
      | some s' =>
          obtain ⟨kept', h'⟩ := hb s s' a kept rest h hs
          simp only [Option.bind_eq_bind, Option.bind_some, hs]
          exact ih h' (Nat.le_of_succ_le_succ hn)

end Folds

/-! ## 3. Taking nodes off -/

section Visits

variable {ν : Type} [DecidableEq ν] {del : ν → Bool} {head : ν} {n : Nat} {L : Links ν}
  {kept rest seen : List ν}

/-- Taking a node off a ring. -/
theorem Ring.unlink_mid {a : ν} (h : Ring L head (kept ++ a :: rest)) :
    ∃ L', LinkedRing.unlink L a = some L' ∧ Ring L' head (kept ++ rest) ∧ L'.next a = none := by
  obtain ⟨L', hrun, hring, hnext, -⟩ := h.unlink (List.mem_append_right kept List.mem_cons_self)
  have hnot : a ∉ kept := fun hk => (List.nodup_append.mp (List.nodup_cons.mp h.nodup).2).2.2 a hk a
    List.mem_cons_self rfl
  rw [List.erase_append_right _ hnot, List.erase_cons_head] at hring
  exact ⟨L', hrun, hring, hnext⟩

/-- Where nothing is taken off, the ring stays. -/
theorem visit_keepsRing (hd : ∀ node ∈ kept, del node = false) :
    KeepsRing Prod.fst (visit del) head kept := by
  intro s s' node h hm hs
  rw [visit, hd node hm, if_neg Bool.false_ne_true] at hs
  obtain rfl := Option.some.inj hs
  exact h

theorem visit_keepsRest : KeepsRest Prod.fst (visit del) head := by
  intro s s' node kept rest h hs
  unfold visit at hs
  split at hs
  · obtain ⟨L', hrun, hring, -⟩ := h.unlink_mid
    rw [hrun, Option.map_some] at hs
    obtain rfl := Option.some.inj hs
    exact ⟨kept, hring⟩
  · obtain rfl := Option.some.inj hs
    exact ⟨kept ++ [node], by rwa [← List.append_cons]⟩

/-- **What the fold does**: it visits every node, and takes off those to be taken, in order. -/
theorem visit_foldlM : rest.foldlM (visit del) (L, seen) =
    ((rest.filter del).foldlM unlink L).map fun L' => (L', seen ++ rest) := by
  induction rest generalizing L seen with
  | nil => rw [List.append_nil]; rfl
  | cons a rest ih =>
      rw [List.foldlM_cons, visit]
      by_cases hd : del a = true
      · rw [if_pos hd, List.filter_cons_of_pos hd, List.foldlM_cons, List.append_cons seen a rest]
        cases hu : unlink L a with
        | none => rfl
        | some L' => exact ih
      · rw [if_neg hd, List.filter_cons_of_neg hd, List.append_cons seen a rest]
        exact ih

/-- **The walk that reads on from a node taken off** ends there. -/
theorem walk_visit (h : Ring L head (kept ++ rest)) (hn : rest.length ≤ n) :
    ∃ L', walk Prod.fst (visit del) head n (L, seen) rest.head? =
        some (L', seen ++ rest.takeWhile (fun a => !del a) ++ (rest.find? del).toList) ∧
      (rest.find? del).elim (some L) (unlink L) = some L' := by
  induction rest generalizing n kept seen with
  | nil => exact ⟨L, by cases n <;> simp [walk], rfl⟩
  | cons a rest ih =>
      obtain ⟨n, rfl⟩ := Nat.exists_eq_add_of_le' (Nat.le_trans (Nat.le_add_left 1 rest.length) hn)
      rw [List.head?_cons, walk]
      by_cases hd : del a = true
      · obtain ⟨L', hrun, -, hnext⟩ := h.unlink_mid
        refine ⟨L', ?_, by simpa [hd] using hrun⟩
        have hend : peekNext L' head a = none := by
          unfold peekNext
          split
          · rfl
          · exact hnext
        rw [visit, if_pos hd, hrun]
        simp only [Option.map_some, Option.bind_eq_bind, Option.bind_some, hend]
        cases n <;> simp [walk, hd]
      · have hnext := h.peekNext
        rw [List.append_cons] at h
        obtain ⟨L', hwalk, hdel⟩ := @ih n (kept ++ [a]) (seen ++ [a]) h (Nat.le_of_succ_le_succ hn)
        refine ⟨L', ?_, by simpa [hd] using hdel⟩
        rw [visit, if_neg hd]
        simp only [Option.bind_eq_bind, Option.bind_some, hnext, hwalk]
        simp [hd]

/-- **The cycle that reads on from a node taken off** reads through NULL. -/
theorem cycle_visit (h : Ring L head (kept ++ rest)) (hd : ∃ a ∈ rest, del a = true) :
    cycle Prod.fst (visit del) head n (L, seen) (some (rest.head?.getD head)) = none := by
  induction rest generalizing n L kept seen with
  | nil =>
      obtain ⟨a, ha, -⟩ := hd
      cases ha
  | cons a rest ih =>
      rw [List.head?_cons, Option.getD_some]
      cases n with
      | zero => exact if_neg h.some_ne_head
      | succ n =>
          rw [cycle, if_neg h.some_ne_head]
          by_cases ha : del a = true
          · obtain ⟨L', hrun, -, hnext⟩ := h.unlink_mid
            simp only [visit, ha, if_true, hrun, Option.map_some, Option.bind_eq_bind, Option.bind_some, hnext]
            cases n <;> rfl
          · have hnext := h.next_mid
            obtain ⟨b, hb, hdb⟩ := hd
            have hbr : b ∈ rest := List.mem_of_ne_of_mem (fun e : b = a => ha (e ▸ hdb)) hb
            rw [List.append_cons] at h
            simp only [visit, ha, if_false, Option.bind_eq_bind, Option.bind_some, hnext,
              Bool.false_eq_true]
            exact ih h ⟨b, hbr, hdb⟩

end Visits

end LinkedRing
