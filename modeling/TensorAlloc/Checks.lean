/-
  File:      TensorAlloc/Checks.lean
  Subject:   The conditions of a step, computed: on a given state they can be evaluated.

  * `exists_takes_iff` -- the block a search takes is the one the code's search over the orders finds;
  * `buddiesListed_iff` -- the buddies a free merges end with the orders.
-/
import TensorAlloc.Counter

namespace TensorAlloc

/-! ## 1. What a search takes -/

section Taking

variable {st : State} {nu lvl order : Nat} {mt : MigrationType}

theorem exists_takes_iff {P : Nat → Item → Prop} :
    (∃ oi item, Takes st nu lvl order mt oi item ∧ P oi item) ↔
      ∃ m, m ∈ maxOrderOf st (st.nodes (.phy nu)).dim lvl mt ∧
        ∃ q, q ∈ searchOrders st (.phy nu lvl) mt false (m - order) order ∧ P q.1 q.2 := by
  constructor
  · rintro ⟨oi, item, ⟨⟨m, hm, hlt⟩, hF⟩, hP⟩
    have hge := hF.ge
    exact ⟨m, hm, (oi, item), searchOrders_eq_some.mpr ⟨hge, by omega, hF.found, hF.first⟩, hP⟩
  · rintro ⟨m, hm, ⟨oi, item⟩, hq, hP⟩
    obtain ⟨hge, hlt, hfound, hfirst⟩ := searchOrders_eq_some.mp hq
    exact ⟨oi, item, ⟨⟨m, hm, by omega⟩, hge, hfound, hfirst⟩, hP⟩

instance {P : Nat → Item → Prop} [∀ oi item, Decidable (P oi item)] :
    Decidable (∃ oi item, Takes st nu lvl order mt oi item ∧ P oi item) :=
  decidable_of_iff _ exists_takes_iff.symm

instance : Decidable (OwnServes st nu lvl order mt) :=
  inferInstanceAs (Decidable (_ ∧ _ ∧ _ ∧ _))

end Taking

/-! ## 2. What a free merges -/

section Merging

variable {st : State} {nu lvl order maxOrder : Nat} {mt : MigrationType} {top : Prop} {item : Item}

instance {base x a n : Nat} [Decidable top] :
    Decidable (TakesBuddy st base x a mt maxOrder top order n) :=
  decidable_of_iff (order + n ≤ orderSub maxOrder 1 ∧ mt ≠ .lrutype ∧
      ¬ (top ∧ order + n = orderSub maxOrder 1) ∧
      partlyFree (st.items (base + mergedIdx x a n)) = false ∧
      itemIsBuddy (st.items (base + mergedBuddy x a n)) (order + n) = true ∧
      buddyIsValid mt (st.items (base + mergedBuddy x a n)) = true)
    ⟨fun ⟨h1, h2, h3, h4, h5, h6⟩ => ⟨h1, h2, h3, h4, h5, h6⟩,
      fun ⟨h1, h2, h3, h4, h5, h6⟩ => ⟨h1, h2, h3, h4, h5, h6⟩⟩

/-- The `n`-th buddy is where its order says. -/
def BuddyListed (st : State) (nu lvl order : Nat) (mt : MigrationType) (top : Prop) (item : Item)
    (n : Nat) : Prop :=
  (st.items (st.tables.phyItemStruct nu + mergedBuddy (item - st.tables.phyItemStruct nu)
      (order + functionItemLvl groupOrderNumShift lvl) n)).onList =
    some (.groupCell (.phy nu lvl) mt (order + n)) ∧ (order + n + 1 < maxItemOrder ∨ top)

instance {n : Nat} [Decidable top] : Decidable (BuddyListed st nu lvl order mt top item n) :=
  inferInstanceAs (Decidable (_ ∧ _))

/-- The merge ends with the orders. -/
theorem buddiesListed_iff : BuddiesListed st nu lvl order mt maxOrder top item ↔
    ∀ n < orderSub maxOrder 1 + 1, (∀ m < n + 1, TakesBuddy st (st.tables.phyItemStruct nu)
        (item - st.tables.phyItemStruct nu) (order + functionItemLvl groupOrderNumShift lvl) mt maxOrder
        top order m) →
      BuddyListed st nu lvl order mt top item n := by
  constructor
  · exact fun h n _ hn => h n fun m hm => hn m (Nat.lt_succ_of_le hm)
  · intro h n hn
    have hbelow := (hn n (Nat.le_refl n)).below
    exact h n (by omega) fun m hm => hn m (Nat.le_of_lt_succ hm)

instance [Decidable top] : Decidable (BuddiesListed st nu lvl order mt maxOrder top item) :=
  decidable_of_iff _ buddiesListed_iff.symm

instance : Decidable (MergesOwn st nu mt item) :=
  inferInstanceAs (Decidable (_ → _))

end Merging

/-! ## 3. Runs -/

/-- What holds of the result of a call that returns. -/
instance decidableForallSome {α : Type} {o : Option α} {P : α → Prop} [DecidablePred P] :
    Decidable (∀ a, o = some a → P a) :=
  inferInstanceAs (Decidable (∀ a, a ∈ o → P a))

end TensorAlloc
