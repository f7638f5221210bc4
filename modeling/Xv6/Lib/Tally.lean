import Mathlib.Algebra.BigOperators.Group.Finset.Basic
import Mathlib.Algebra.Order.BigOperators.Group.Finset

/-!
# Sums of which one term changes

A count kept in one place is compared with a sum over all who contribute to it.  When one
of them acts, one term of the sum changes.
-/

namespace Xv6
namespace Lib

variable {ι M : Type} [DecidableEq ι] {A : Finset ι}

/-- The sum changes by as much as the term. -/
theorem sum_of_agree [AddCommMonoid M] (g g' : ι → M) {k : ι} (hk : k ∈ A)
    (h : ∀ i, i ≠ k → g' i = g i) : ∑ i ∈ A, g' i + g k = ∑ i ∈ A, g i + g' k := by
  have hrest : ∑ i ∈ A.erase k, g' i = ∑ i ∈ A.erase k, g i :=
    Finset.sum_congr rfl fun i hi => h i (Finset.ne_of_mem_erase hi)
  rw [← Finset.sum_erase_add A g' hk, ← Finset.sum_erase_add A g hk, hrest]
  exact add_right_comm _ _ _

end Lib
end Xv6
