/-
  File:      TensorAlloc/Base/BuddySet.lean
  Subject:   A set of free blocks, and freeing by merging buddies. Library: no allocator, no list, no
             program.

  * `Gathers` -- a block takes the free buddy of its size, becomes their pair, and so on;
  * `Gathers.cover_eq` -- gathering moves no cell: what the set gives up the block takes in;
  * `Coalesced` -- below the cap no two buddies of the set are left apart;
  * `Gathers.settles` -- put in when its own buddy is not free, the gathered block leaves a set
    that is aligned, disjoint and coalesced, and covers the old cells and the given ones.
-/
import TensorAlloc.Base.DyadicBlocks

namespace DyadicBlocks

/-! ## 1. Buddy and pair -/

/-- The other half of the pair. -/
def Block.buddy (b : Block) : Block := ⟨b.start ^^^ 2 ^ b.log, b.log⟩

/-- The block of twice the size that holds the block and its buddy. -/
def Block.pair (b : Block) : Block := ⟨(b.start ^^^ 2 ^ b.log) &&& b.start, b.log + 1⟩

@[simp] theorem Block.buddy_buddy (b : Block) : b.buddy.buddy = b := by
  obtain ⟨x, n⟩ := b
  simp only [Block.buddy, Nat.xor_assoc, Nat.xor_self, Nat.xor_zero]

theorem Block.Aligned.pair {b : Block} (h : b.Aligned) : b.pair.Aligned := dvd_pair h

theorem mem_pair {b : Block} (h : b.Aligned) {d : Nat} : d ∈ b.pair ↔ d ∈ b ∨ d ∈ b.buddy :=
  mem_pair_iff h d

theorem not_mem_of_buddy {b : Block} (h : b.Aligned) {d : Nat} (hd : d ∈ b) : d ∉ b.buddy :=
  not_mem_buddy h hd

/-! ## 2. Sets of blocks -/

section Sets

variable {s : Finset Block} {b : Block} {k d : Nat}

theorem cover_insert (h : b ∉ s) (d : Nat) :
    cover (insert b s).val d = cover s.val d + if d ∈ b then 1 else 0 := by
  rw [Finset.insert_val_of_notMem h, cover_cons]

theorem cover_erase (h : b ∈ s) (d : Nat) :
    cover (s.erase b).val d + (if d ∈ b then 1 else 0) = cover s.val d := by
  rw [← cover_insert (Finset.notMem_erase b s), Finset.insert_erase h]

/-- The blocks of one size. -/
def sizeCount (s : Finset Block) (k : Nat) : Nat := (s.filter (·.log = k)).card

theorem sizeCount_insert (h : b ∉ s) (k : Nat) :
    sizeCount (insert b s) k = sizeCount s k + if b.log = k then 1 else 0 := by
  unfold sizeCount
  rw [Finset.filter_insert]
  split
  · exact Finset.card_insert_of_notMem fun hb => h (Finset.mem_filter.mp hb).1
  · rfl

theorem sizeCount_erase (h : b ∈ s) (k : Nat) :
    sizeCount (s.erase b) k + (if b.log = k then 1 else 0) = sizeCount s k := by
  rw [← sizeCount_insert (Finset.notMem_erase b s), Finset.insert_erase h]

/-- No two buddies below the cap are left apart. -/
def Coalesced (cap : Nat) (s : Finset Block) : Prop := ∀ b ∈ s, b.log < cap → b.buddy ∉ s

theorem Coalesced.subset {cap : Nat} {t : Finset Block} (h : Coalesced cap s) (hsub : t ⊆ s) :
    Coalesced cap t :=
  fun b hb hlt hbuddy => h b (hsub hb) hlt (hsub hbuddy)

/-- A block whose buddy is not there leaves the set coalesced. -/
theorem Coalesced.insert {cap : Nat} (h : Coalesced cap s) (ha : b.Aligned)
    (hb : b.log < cap → b.buddy ∉ s) : Coalesced cap (insert b s) := by
  intro c hc hlt hbuddy
  rcases Finset.mem_insert.mp hc with rfl | hc
  · rcases Finset.mem_insert.mp hbuddy with e | hin
    · have hself := start_mem c
      exact not_mem_of_buddy ha hself (by rw [e]; exact hself)
    · exact hb hlt hin
  · rcases Finset.mem_insert.mp hbuddy with e | hin
    · refine hb (by rw [← e]; exact hlt) ?_
      rw [← e, Block.buddy_buddy]
      exact hc
    · exact h c hc hlt hin

end Sets

/-! ## 3. Gathering -/

/-- From the set `s` the block `b` takes free buddies, one after the other. -/
inductive Gathers (s : Finset Block) (b : Block) : Finset Block → Block → Prop
  | refl : Gathers s b s b
  | merge {s' : Finset Block} {b' : Block} (run : Gathers s b s' b') (free : b'.buddy ∈ s') :
      Gathers s b (s'.erase b'.buddy) b'.pair

section Gathers

variable {s s' : Finset Block} {b b' : Block}

theorem Gathers.aligned (h : Gathers s b s' b') (ha : b.Aligned) : b'.Aligned := by
  induction h with
  | refl => exact ha
  | merge _ _ ih => exact ih.pair

theorem Gathers.subset (h : Gathers s b s' b') : s' ⊆ s := by
  induction h with
  | refl => exact Finset.Subset.refl s
  | merge _ _ ih => exact (Finset.erase_subset _ _).trans ih

/-- **Gathering moves no cell.** -/
theorem Gathers.cover_eq (h : Gathers s b s' b') (ha : b.Aligned) (d : Nat) :
    cover s'.val d + (if d ∈ b' then 1 else 0) = cover s.val d + if d ∈ b then 1 else 0 := by
  induction h with
  | refl => rfl
  | @merge s' b' run free ih =>
      have hpair := @mem_pair b' (run.aligned ha) d
      have hnot := @not_mem_of_buddy b' (run.aligned ha) d
      rw [← ih, ← cover_erase free d]
      by_cases hb : d ∈ b'
      · rw [if_pos (hpair.mpr (.inl hb)), if_neg (hnot hb), if_pos hb]
      · by_cases hbuddy : d ∈ b'.buddy
        · rw [if_pos (hpair.mpr (.inr hbuddy)), if_pos hbuddy, if_neg hb]
        · rw [if_neg fun h => (hpair.mp h).elim hb hbuddy, if_neg hbuddy, if_neg hb]

/-- What freeing the block `given` leaves of the free set `s`. -/
structure Settled (cap : Nat) (s : Finset Block) (given : Block) (s' : Finset Block) : Prop where
  aligned : ∀ c ∈ s', c.Aligned
  apart : Apart s'.val
  cover : ∀ d, 0 < cover s'.val d ↔ 0 < cover s.val d ∨ d ∈ given
  coalesced : Coalesced cap s → Coalesced cap s'

/-- **Gathering, then putting the block in**, its own buddy not being free below the cap. -/
theorem Gathers.settles {cap : Nat} (h : Gathers s b s' b') (ha : b.Aligned)
    (hs : ∀ c ∈ s, c.Aligned) (hap : Apart s.val) (hout : ∀ d ∈ b, cover s.val d = 0)
    (hnot : b' ∉ s') (hlast : b'.log < cap → b'.buddy ∉ s') : Settled cap s b (insert b' s') := by
  have hcover : ∀ d, cover (insert b' s').val d =
      cover s.val d + if d ∈ b then 1 else 0 := by
    intro d
    rw [cover_insert hnot, h.cover_eq ha]
  refine ⟨fun c hc => ?_, fun d => ?_, fun d => ?_, fun hco => ?_⟩
  · rcases Finset.mem_insert.mp hc with rfl | hc
    · exact h.aligned ha
    · exact hs c (h.subset hc)
  · rw [hcover]
    split
    · next hd => rw [hout d hd]
    · exact hap d
  · rw [hcover]
    split
    · next hd => exact ⟨fun _ => .inr hd, fun _ => Nat.succ_pos _⟩
    · next hd => exact ⟨.inl, fun h => h.resolve_right hd⟩
  · exact (hco.subset h.subset).insert (h.aligned ha) hlast

end Gathers

end DyadicBlocks
