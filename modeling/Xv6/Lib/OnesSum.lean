import Mathlib.Algebra.BigOperators.Group.List.Basic
import Mathlib.Data.Nat.ModEq

/-!
# One's-complement sums

A sum in one's complement is a sum modulo `m = 2 ^ w - 1` in which zero has two
representations: `0`, which only the empty sum and sums of zeros have, and `m`.  `ones m s` is
the representation of the sum `s`.  It can be computed by an end-around carry after every
addition (`foldl_ones`) or once at the end, and the complement of a sum brings it to `m`
(`ones_add_complement`), which is what a receiver of both checks.

`pairs` reads a list of bytes as big-endian words of 16 bits, with a zero byte behind an odd
one.
-/

namespace Xv6
namespace Lib

/-- The representation of `s` as a one's-complement sum with modulus `m`. -/
def ones (m s : Nat) : Nat := if s = 0 then 0 else (s - 1) % m + 1

section ones

variable {m s w : Nat}

@[simp] theorem ones_zero : ones m 0 = 0 := rfl

theorem ones_le (hm : 0 < m) : ones m s ≤ m := by
  unfold ones
  split
  · exact Nat.zero_le m
  · exact Nat.mod_lt _ hm

/-- What is in the range represents itself. -/
theorem ones_of_le (h : s ≤ m) : ones m s = s := by
  unfold ones
  split
  · exact Eq.symm ‹_›
  · rw [Nat.mod_eq_of_lt (by omega)]
    omega

theorem ones_eq_zero_iff : ones m s = 0 ↔ s = 0 := by
  unfold ones
  split
  · exact iff_of_true rfl ‹_›
  · exact iff_of_false (Nat.succ_ne_zero _) ‹_›

/-- It represents the sum modulo `m`. -/
theorem ones_modEq : ones m s ≡ s [MOD m] := by
  unfold ones
  split
  · rw [‹s = 0›]
  · have h : (s - 1) % m + 1 ≡ s - 1 + 1 [MOD m] := (Nat.mod_modEq (s - 1) m).add_right 1
    rwa [Nat.sub_add_cancel (by omega)] at h

/-- Residue and being zero determine it. -/
theorem ones_congr {t : Nat} (hmod : s ≡ t [MOD m]) (hzero : s = 0 ↔ t = 0) :
    ones m s = ones m t := by
  by_cases hs : s = 0
  · rw [hs, hzero.mp hs]
  · have ht : t ≠ 0 := fun ht => hs (hzero.mpr ht)
    have hsub : s - 1 ≡ t - 1 [MOD m] := by
      apply Nat.ModEq.add_right_cancel' 1
      rwa [Nat.sub_add_cancel (by omega), Nat.sub_add_cancel (by omega)]
    rw [ones, ones, if_neg hs, if_neg ht, hsub]

/-- Carries may be brought in before the next addition. -/
theorem ones_add : ones m (ones m s + w) = ones m (s + w) := by
  apply ones_congr
  · exact ones_modEq.add_right w
  · rw [Nat.add_eq_zero_iff, Nat.add_eq_zero_iff, ones_eq_zero_iff]

/-- An addition of two representations needs one carry at most. -/
theorem ones_carry (hs : s ≤ m) (hw : w ≤ m) :
    ones m (s + w) = if m < s + w then s + w - m else s + w := by
  split
  · have hmod : s + w - m ≡ s + w [MOD m] := by
      have h : s + w - m + m ≡ s + w - m [MOD m] := Nat.add_modEq_right
      rw [Nat.sub_add_cancel (by omega)] at h
      exact h.symm
    rw [← ones_congr hmod (by omega), ones_of_le (by omega)]
  · exact ones_of_le (by omega)

theorem ones_eq_modulus_iff (hm : 0 < m) : ones m s = m ↔ s ≠ 0 ∧ s % m = 0 := by
  constructor
  · intro h
    constructor
    · rintro rfl
      rw [ones_zero] at h
      omega
    · have hmod : ones m s % m = s % m := ones_modEq
      rw [← hmod, h, Nat.mod_self]
  · rintro ⟨hs, hmod⟩
    have hcongr : s ≡ m [MOD m] := by
      show s % m = m % m
      rw [hmod, Nat.mod_self]
    rw [ones_congr hcongr (by omega), ones_of_le (Nat.le_refl m)]

/-- The complement of the sum completes it. -/
theorem ones_add_complement (hm : 0 < m) : ones m (s + (m - ones m s)) = m := by
  have hle : ones m s ≤ m := ones_le hm
  rw [← ones_add, Nat.add_sub_cancel' hle, ones_of_le (Nat.le_refl m)]

end ones

/-- A loop that carries after every addition computes the sum. -/
theorem foldl_ones {ι : Type} {m : Nat} {step : Nat → ι → Nat} {word : ι → Nat}
    (hstep : ∀ s i, s ≤ m → step s i = ones m (s + word i)) (hm : 0 < m) (is : List ι) {s : Nat} :
    is.foldl step (ones m s) = ones m (s + (is.map word).sum) := by
  induction is generalizing s with
  | nil => rfl
  | cons i is ih =>
    rw [List.foldl_cons, hstep _ _ (ones_le hm), ones_add, ih, List.map_cons, List.sum_cons,
      Nat.add_assoc]

/-! ## Words of bytes -/

/-- The big-endian words of a list of bytes. -/
def pairs : List UInt8 → List Nat
  | [] => []
  | [hi] => [hi.toNat * 256]
  | hi :: lo :: rest => (hi.toNat * 256 + lo.toNat) :: pairs rest

theorem sum_pairs_append (bs cs : List UInt8) (h : bs.length % 2 = 0) :
    (pairs (bs ++ cs)).sum = (pairs bs).sum + (pairs cs).sum := by
  induction bs using pairs.induct with
  | case1 => simp [pairs]
  | case2 => simp at h
  | case3 hi lo rest ih =>
    have hrest : rest.length % 2 = 0 := by
      simp only [List.length_cons] at h
      omega
    show hi.toNat * 256 + lo.toNat + (pairs (rest ++ cs)).sum = _
    rw [ih hrest, ← Nat.add_assoc]
    rfl

/-- No word is larger than 16 bits. -/
theorem sum_pairs_le (bs : List UInt8) : (pairs bs).sum ≤ 65535 * ((bs.length + 1) / 2) := by
  induction bs using pairs.induct with
  | case1 => simp [pairs]
  | case2 hi =>
    have hhi : hi.toNat < 256 := hi.toNat_lt
    simp only [pairs, List.sum_cons, List.sum_nil, List.length_cons, List.length_nil]
    omega
  | case3 hi lo rest ih =>
    have hhi : hi.toNat < 256 := hi.toNat_lt
    have hlo : lo.toNat < 256 := lo.toNat_lt
    simp only [pairs, List.sum_cons, List.length_cons]
    omega

end Lib
end Xv6
