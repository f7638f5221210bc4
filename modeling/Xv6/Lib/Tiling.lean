import Mathlib.Data.Finset.Basic
import Mathlib.Data.Set.Basic
import Mathlib.Tactic.Common

/-!
# Blocks that tile a set of units

Memory is dealt out in units of `w` bytes.  A block is given by its address and its size in
units.  `Tiling w S size U` says that the blocks of `S` are not empty, do not overlap and make up
exactly the units `U`.  Blocks that meet can be joined and a block can be split, which leaves the
units as they are.
-/

namespace Xv6
namespace Lib

open Function

/-- The units of the block of `n` units at `b`. -/
def unitsOf (w b n : Nat) : Set Nat := { u | ∃ j, j < n ∧ u = b + w * j }

/-- The blocks of `S` make up the units `U`. -/
structure Tiling (w : Nat) (S : Finset Nat) (size : Nat → Nat) (U : Set Nat) : Prop where
  pos : ∀ b ∈ S, 0 < size b
  apart : ∀ a ∈ S, ∀ b ∈ S, a < b → a + w * size a ≤ b
  cover : ∀ u, u ∈ U ↔ ∃ b ∈ S, u ∈ unitsOf w b (size b)

variable {w a b u m n : Nat} {S : Finset Nat} {size size' : Nat → Nat} {U : Set Nat}

theorem mem_unitsOf_start (h : 0 < n) : b ∈ unitsOf w b n := ⟨0, h, rfl⟩

theorem unitsOf_add : unitsOf w b (m + n) = unitsOf w b m ∪ unitsOf w (b + w * m) n := by
  ext u
  constructor
  · rintro ⟨j, hj, rfl⟩
    rcases Nat.lt_or_ge j m with hlt | hge
    · exact .inl ⟨j, hlt, rfl⟩
    · refine .inr ⟨j - m, by omega, ?_⟩
      rw [Nat.add_assoc, ← Nat.mul_add, Nat.add_sub_cancel' hge]
  · rintro (⟨j, hj, rfl⟩ | ⟨j, hj, rfl⟩)
    · exact ⟨j, by omega, rfl⟩
    · refine ⟨m + j, by omega, ?_⟩
      rw [Nat.mul_add, Nat.add_assoc]

/-- A unit lies inside its block. -/
theorem le_of_mem_unitsOf (h : u ∈ unitsOf w b n) : b ≤ u ∧ u + w ≤ b + w * n := by
  obtain ⟨j, hj, rfl⟩ := h
  have hle : w * (j + 1) ≤ w * n := Nat.mul_le_mul_left w hj
  rw [Nat.mul_add, Nat.mul_one] at hle
  omega

/-- A block whose units all lie below `x` or above `y` lies below or above as a whole. -/
theorem unitsOf_below {x y : Nat} (hxy : x < y) (hstart : b < y)
    (hside : ∀ u ∈ unitsOf w b n, u + w ≤ x ∨ y ≤ u) (hn : 0 < n) : b + w * n ≤ x := by
  -- unit by unit: the next one starts where this one ends
  induction n with
  | zero => exact absurd hn (Nat.lt_irrefl 0)
  | succ n ih =>
    have hlast := hside (b + w * n) ⟨n, Nat.lt_succ_self n, rfl⟩
    rw [Nat.mul_add, Nat.mul_one, ← Nat.add_assoc]
    rcases Nat.eq_zero_or_pos n with rfl | hpos
    · rw [Nat.mul_zero, Nat.add_zero] at hlast ⊢
      omega
    · have hbelow := ih (fun u ⟨j, hj, hu⟩ => hside u ⟨j, Nat.lt_succ_of_lt hj, hu⟩) hpos
      omega

namespace Tiling

theorem congr (h : Tiling w S size U) (hsame : ∀ b ∈ S, size' b = size b) :
    Tiling w S size' U := by
  constructor
  · intro b hb
    rw [hsame b hb]
    exact h.pos b hb
  · intro a ha b hb hlt
    rw [hsame a ha]
    exact h.apart a ha b hb hlt
  · intro u
    rw [h.cover u]
    constructor
    · rintro ⟨b, hb, hu⟩
      exact ⟨b, hb, by rw [hsame b hb]; exact hu⟩
    · rintro ⟨b, hb, hu⟩
      exact ⟨b, hb, by rw [← hsame b hb]; exact hu⟩

theorem mem_of_unit (h : Tiling w S size U) (hb : b ∈ S) (hu : u ∈ unitsOf w b (size b)) :
    u ∈ U := (h.cover u).mpr ⟨b, hb, hu⟩

/-- A unit is in one block only. -/
theorem unique (h : Tiling w S size U) (hw : 0 < w) (ha : a ∈ S) (hb : b ∈ S)
    (hua : u ∈ unitsOf w a (size a)) (hub : u ∈ unitsOf w b (size b)) : a = b := by
  have hla := le_of_mem_unitsOf hua
  have hlb := le_of_mem_unitsOf hub
  rcases Nat.lt_trichotomy a b with hlt | heq | hgt
  · have := h.apart a ha b hb hlt
    omega
  · exact heq
  · have := h.apart b hb a ha hgt
    omega

/-- Two blocks that meet become one. -/
theorem join (h : Tiling w S size U) (hw : 0 < w) (ha : a ∈ S) (hb : b ∈ S)
    (hmeet : a + w * size a = b) :
    Tiling w (S.erase b) (update size a (size a + size b)) U := by
  have hpos := h.pos a ha
  have hab : a < b := by
    have := Nat.mul_pos hw hpos
    omega
  have hmem : a ∈ S.erase b := Finset.mem_erase.mpr ⟨Nat.ne_of_lt hab, ha⟩
  constructor
  · intro c hc
    by_cases hca : c = a
    · rw [hca, update_self]
      omega
    · rw [update_of_ne hca]
      exact h.pos c (Finset.mem_of_mem_erase hc)
  · intro c hc e he hlt
    obtain ⟨hcb, hcS⟩ := Finset.mem_erase.mp hc
    obtain ⟨heb, heS⟩ := Finset.mem_erase.mp he
    by_cases hca : c = a
    · subst hca
      rw [update_self, Nat.mul_add, ← Nat.add_assoc, hmeet]
      -- a block above the first lies above the second
      have hce := h.apart c hcS e heS hlt
      apply h.apart b hb e heS
      omega
    · rw [update_of_ne hca]
      exact h.apart c hcS e heS hlt
  · intro u
    rw [h.cover u]
    constructor
    · rintro ⟨c, hc, hu⟩
      by_cases hcb : c = b
      · refine ⟨a, hmem, ?_⟩
        rw [update_self, unitsOf_add, hmeet, ← hcb]
        exact .inr hu
      · by_cases hca : c = a
        · refine ⟨a, hmem, ?_⟩
          rw [update_self, unitsOf_add, ← hca]
          exact .inl hu
        · refine ⟨c, Finset.mem_erase.mpr ⟨hcb, hc⟩, ?_⟩
          rw [update_of_ne hca]
          exact hu
    · rintro ⟨c, hc, hu⟩
      by_cases hca : c = a
      · rw [hca, update_self, unitsOf_add, hmeet] at hu
        rcases hu with hu | hu
        · exact ⟨a, ha, hu⟩
        · exact ⟨b, hb, hu⟩
      · rw [update_of_ne hca] at hu
        exact ⟨c, Finset.mem_of_mem_erase hc, hu⟩

/-- A block becomes two, of `m` and `n` units. -/
theorem split (h : Tiling w S size U) (hw : 0 < w) (ha : a ∈ S) (hsize : size a = m + n)
    (hm : 0 < m) (hn : 0 < n) : a + w * m ∉ S ∧
    Tiling w (insert (a + w * m) S)
      (update (update size a m) (a + w * m) n) U := by
  have hwm := Nat.mul_pos hw hm
  have hwn := Nat.mul_pos hw hn
  have hmul : w * size a = w * m + w * n := by rw [hsize, Nat.mul_add]
  have hnew : a + w * m ∉ S := by
    intro hmem
    have := h.apart a ha _ hmem (by omega)
    omega
  have hne : a ≠ a + w * m := by omega
  have hsizea : update (update size a m) (a + w * m) n a = m := by
    rw [update_of_ne hne, update_self]
  have hsizenew : update (update size a m) (a + w * m) n (a + w * m) = n :=
    update_self ..
  have hother : ∀ c, c ≠ a → c ≠ a + w * m →
      update (update size a m) (a + w * m) n c = size c := by
    intro c hca hcn
    rw [update_of_ne hcn, update_of_ne hca]
  have hunits : unitsOf w a (size a) = unitsOf w a m ∪ unitsOf w (a + w * m) n := by
    rw [hsize, unitsOf_add]
  refine ⟨hnew, ?_, ?_, ?_⟩
  · intro c hc
    by_cases hcn : c = a + w * m
    · rw [hcn, hsizenew]
      exact hn
    · by_cases hca : c = a
      · rw [hca, hsizea]
        exact hm
      · rw [hother c hca hcn]
        exact h.pos c ((Finset.mem_insert.mp hc).resolve_left hcn)
  · intro c hc e he hlt
    by_cases hcn : c = a + w * m
    · rw [hcn, hsizenew]
      have heS : e ∈ S := (Finset.mem_insert.mp he).resolve_left (by omega)
      have := h.apart a ha e heS (by omega)
      omega
    · have hcS : c ∈ S := (Finset.mem_insert.mp hc).resolve_left hcn
      by_cases hca : c = a
      · rw [hca, hsizea]
        by_cases hen : e = a + w * m
        · omega
        · have := h.apart a ha e ((Finset.mem_insert.mp he).resolve_left hen) (by omega)
          omega
      · rw [hother c hca hcn]
        by_cases hen : e = a + w * m
        · -- a block below the new one is not above the old one
          rcases Nat.lt_or_ge c a with hbelow | habove
          · have := h.apart c hcS a ha hbelow
            omega
          · have := h.apart a ha c hcS (by omega)
            omega
        · exact h.apart c hcS e ((Finset.mem_insert.mp he).resolve_left hen) hlt
  · intro u
    rw [h.cover u]
    constructor
    · rintro ⟨c, hc, hu⟩
      by_cases hca : c = a
      · rw [hca, hunits] at hu
        rcases hu with hu | hu
        · exact ⟨a, Finset.mem_insert_of_mem ha, by rw [hsizea]; exact hu⟩
        · exact ⟨a + w * m, Finset.mem_insert_self _ _, by rw [hsizenew]; exact hu⟩
      · have hcn : c ≠ a + w * m := fun heq => hnew (heq ▸ hc)
        exact ⟨c, Finset.mem_insert_of_mem hc, by rw [hother c hca hcn]; exact hu⟩
    · rintro ⟨c, hc, hu⟩
      by_cases hcn : c = a + w * m
      · rw [hcn, hsizenew] at hu
        exact ⟨a, ha, by rw [hunits]; exact .inr hu⟩
      · by_cases hca : c = a
        · rw [hca, hsizea] at hu
          exact ⟨a, ha, by rw [hunits]; exact .inl hu⟩
        · rw [hother c hca hcn] at hu
          exact ⟨c, (Finset.mem_insert.mp hc).resolve_left hcn, hu⟩

/-- A block of new units. -/
theorem add (h : Tiling w S size U) (hn : 0 < w * n)
    (hfree : ∀ u ∈ U, u + w ≤ a ∨ a + w * n ≤ u) : a ∉ S ∧
    Tiling w (insert a S) (update size a n) (unitsOf w a n ∪ U) := by
  have hside : ∀ b ∈ S, b < a + w * n → b + w * size b ≤ a := by
    intro b hb hlt
    exact unitsOf_below (by omega) hlt (fun u hu => hfree u (h.mem_of_unit hb hu)) (h.pos b hb)
  have hnew : a ∉ S := by
    intro hmem
    have hpos : 0 < w * size a :=
      Nat.mul_pos (Nat.pos_of_mul_pos_right hn) (h.pos a hmem)
    have := hside a hmem (by omega)
    omega
  have hother : ∀ c, c ∈ S → update size a n c = size c := by
    intro c hc
    have hne : c ≠ a := fun heq => hnew (heq ▸ hc)
    exact update_of_ne hne ..
  refine ⟨hnew, ?_, ?_, ?_⟩
  · intro c hc
    rcases Finset.mem_insert.mp hc with rfl | hc
    · rw [update_self]
      exact Nat.pos_of_mul_pos_left hn
    · rw [hother c hc]
      exact h.pos c hc
  · intro c hc e he hlt
    rcases Finset.mem_insert.mp hc with rfl | hc
    · rw [update_self]
      by_contra hinside
      have heS : e ∈ S := (Finset.mem_insert.mp he).resolve_left (by omega)
      have := hside e heS (by omega)
      omega
    · rw [hother c hc]
      rcases Finset.mem_insert.mp he with heq | he
      · rw [heq] at hlt ⊢
        exact hside c hc (by omega)
      · exact h.apart c hc e he hlt
  · intro u
    rw [Set.mem_union, h.cover u]
    constructor
    · rintro (hu | ⟨c, hc, hu⟩)
      · exact ⟨a, Finset.mem_insert_self _ _, by rw [update_self]; exact hu⟩
      · exact ⟨c, Finset.mem_insert_of_mem hc, by rw [hother c hc]; exact hu⟩
    · rintro ⟨c, hc, hu⟩
      rcases Finset.mem_insert.mp hc with rfl | hc
      · rw [update_self] at hu
        exact .inl hu
      · rw [hother c hc] at hu
        exact .inr ⟨c, hc, hu⟩

end Tiling

end Lib
end Xv6
