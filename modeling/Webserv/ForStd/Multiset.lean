import Mathlib.Algebra.BigOperators.Group.Multiset.Defs
import Mathlib.Algebra.Order.Group.Multiset
import Mathlib.Algebra.BigOperators.Group.Multiset.Basic

/-!
# Dealing out the members of a multiset

`Deals P xs m`: the total `m` can be dealt out among the members of `xs` so that
`P` holds of each of them with its share.

## Key results

- `deals_zero`, `deals_cons`: the two forms of a multiset
-/

namespace Multiset

variable {α M : Type*} [AddCommMonoid M] {P : α → M → Prop}

/-- The total is the sum of shares, one for each member. -/
def Deals (P : α → M → Prop) (xs : Multiset α) (m : M) : Prop :=
  ∃ ys : Multiset (α × M), ys.map Prod.fst = xs ∧ (ys.map Prod.snd).sum = m ∧
    ∀ y ∈ ys, P y.1 y.2

/-- Only zero can be dealt out to nobody. -/
theorem deals_zero {m : M} : Deals P 0 m ↔ m = 0 := by
  constructor
  · rintro ⟨ys, hxs, rfl, -⟩
    rw [map_eq_zero.mp hxs]
    rfl
  · rintro rfl
    exact ⟨0, rfl, rfl, by simp⟩

/-- The first member takes its share, and the rest is dealt out among the others. -/
theorem deals_cons {x : α} {xs : Multiset α} {m : M} :
    Deals P (x ::ₘ xs) m ↔ ∃ m₁ m₂, m = m₁ + m₂ ∧ P x m₁ ∧ Deals P xs m₂ := by
  constructor
  · rintro ⟨ys, hxs, rfl, hP⟩
    classical
    -- the pair that the first member is in
    obtain ⟨y, hy, rfl, hrest⟩ := (map_eq_cons _ _ _ _).mpr hxs
    obtain ⟨rest, rfl⟩ := exists_cons_of_mem hy
    rw [erase_cons_head] at hrest
    refine ⟨y.2, (rest.map Prod.snd).sum, by simp, hP y hy, rest, hrest, rfl, ?_⟩
    intro y' hy'
    exact hP y' (mem_cons_of_mem hy')
  · rintro ⟨m₁, m₂, rfl, hx, ys, rfl, rfl, hP⟩
    -- the share of the first member goes in front
    refine ⟨(x, m₁) ::ₘ ys, by simp, by simp, ?_⟩
    intro y hy
    obtain rfl | hy := mem_cons.mp hy
    · exact hx
    · exact hP y hy

end Multiset
