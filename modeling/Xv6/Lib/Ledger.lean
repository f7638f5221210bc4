import Mathlib.Algebra.BigOperators.Group.Finset.Basic
import Mathlib.Algebra.BigOperators.Intervals
import Mathlib.Algebra.Order.BigOperators.Group.Finset

/-!
# Counting over tables

A ledger counts how often something occurs over the entries of a table.  When
one entry of the table changes, the total changes by what that entry contributes
(`sum_change`).  Stating this as an equation between sums of natural numbers,
with no subtraction, lets linear arithmetic combine several changes.
-/

namespace Xv6
namespace Lib

open Finset

variable {ι : Type*}

/-- The ledger that counts `a` once and nothing else. -/
def single (a b : Nat) : Nat := if a = b then 1 else 0

@[simp] theorem single_self (a : Nat) : single a a = 1 := by
  simp [single]

theorem single_of_ne {a b : Nat} (h : a ≠ b) : single a b = 0 := by
  simp [single, h]

theorem single_le_one (a b : Nat) : single a b ≤ 1 := by
  unfold single
  split <;> omega

theorem count_cons_eq (l : List Nat) (a b : Nat) :
    (a :: l).count b = l.count b + single a b := by
  simp [List.count_cons, single]

/-- If two tables differ at most at `i`, so do their totals, by what entry `i`
contributes to each. -/
theorem sum_change {s : Finset ι} {f g : ι → Nat} {i : ι} (hi : i ∈ s)
    (h : ∀ j ∈ s, j ≠ i → g j = f j) : ∑ j ∈ s, g j + f i = ∑ j ∈ s, f j + g i := by
  classical
  have hrest : ∑ j ∈ s.erase i, g j = ∑ j ∈ s.erase i, f j :=
    sum_congr rfl fun j hj => h j (mem_of_mem_erase hj) (ne_of_mem_erase hj)
  have hf := add_sum_erase s f hi
  have hg := add_sum_erase s g hi
  omega

/-- One entry contributes at most the total. -/
theorem le_sum_entry {s : Finset ι} {f : ι → Nat} {i : ι} (hi : i ∈ s) :
    f i ≤ ∑ j ∈ s, f j :=
  single_le_sum (f := f) (fun _ _ => Nat.zero_le _) hi

/-- Two different entries together contribute at most the total. -/
theorem add_le_sum_entries {s : Finset ι} {f : ι → Nat} {i j : ι} (hi : i ∈ s)
    (hj : j ∈ s) (hij : i ≠ j) : f i + f j ≤ ∑ k ∈ s, f k := by
  classical
  have hsplit := add_sum_erase s f hi
  have hle : f j ≤ ∑ k ∈ s.erase i, f k :=
    le_sum_entry (mem_erase.mpr ⟨hij.symm, hj⟩)
  omega

end Lib
end Xv6
