import Mathlib.Logic.Function.Basic
import Mathlib.Tactic.Common

/-!
# A table of slots as a finite map

Keys and values are kept in slots, in no order; a slot is free or holds one key with its value.
While no key stands in two slots the table is a map: `Holds` says which.  Filling a free slot with
a key that is not there, and freeing the slot of a key, are the updates of the map.
-/

namespace Xv6
namespace Lib
namespace Slots

open Function

variable {K V : Type} {t : Nat → Option (K × V)} {m : K → Option V} {j : Nat} {k : K} {v : V}

/-- No key stands in two slots. -/
def Distinct (t : Nat → Option (K × V)) : Prop :=
  ∀ i j k v w, t i = some (k, v) → t j = some (k, w) → i = j

/-- The table holds the bindings of the map. -/
def Holds (t : Nat → Option (K × V)) (m : K → Option V) : Prop :=
  ∀ k v, m k = some v ↔ ∃ j, t j = some (k, v)

theorem Holds.of_none (h : Holds t m) (hnone : m k = none) : ∀ j v, t j ≠ some (k, v) := by
  intro j v hj
  have hsome := (h k v).mpr ⟨j, hj⟩
  rw [hnone] at hsome
  cases hsome

/-- A table holds one map only. -/
theorem Holds.unique {m' : K → Option V} (h : Holds t m) (h' : Holds t m') : m = m' := by
  funext k
  apply Option.ext
  intro v
  rw [h k v, h' k v]

/-- A slot gets a key that is not there. -/
theorem Distinct.fill (h : Distinct t) (hk : ∀ i v, t i ≠ some (k, v)) :
    Distinct (update t j (some (k, v))) := by
  intro a b c w w' ha hb
  rw [update_apply] at ha hb
  split_ifs at ha hb with haj hbj hbj
  · exact haj.trans hbj.symm
  · obtain ⟨rfl, -⟩ := Prod.mk.inj (Option.some.inj ha)
    exact absurd hb (hk b w')
  · obtain ⟨rfl, -⟩ := Prod.mk.inj (Option.some.inj hb)
    exact absurd ha (hk a w)
  · exact h a b c w w' ha hb

/-- A slot is freed. -/
theorem Distinct.clear (h : Distinct t) : Distinct (update t j none) := by
  intro a b c w w' ha hb
  rw [update_apply] at ha hb
  split_ifs at ha hb
  exact h a b c w w' ha hb

theorem Holds.fill [DecidableEq K] (h : Holds t m) (hj : t j = none) (hk : m k = none) :
    Holds (update t j (some (k, v))) (update m k (some v)) := by
  intro c w
  rw [update_apply]
  constructor
  · intro hc
    split_ifs at hc with hck
    · cases hc
      exact ⟨j, by rw [update_self, hck]⟩
    · obtain ⟨i, hi⟩ := (h c w).mp hc
      have hij : i ≠ j := by
        rintro rfl
        rw [hj] at hi
        cases hi
      exact ⟨i, by rw [update_of_ne hij, hi]⟩
  · rintro ⟨i, hi⟩
    rw [update_apply] at hi
    split_ifs at hi with hij
    · obtain ⟨rfl, rfl⟩ := Prod.mk.inj (Option.some.inj hi)
      rw [if_pos rfl]
    · have hc : c ≠ k := by
        rintro rfl
        exact h.of_none hk i w hi
      rw [if_neg hc]
      exact (h c w).mpr ⟨i, hi⟩

theorem Holds.clear [DecidableEq K] (h : Holds t m) (hd : Distinct t) (hj : t j = some (k, v)) :
    Holds (update t j none) (update m k none) := by
  intro c w
  rw [update_apply]
  constructor
  · intro hc
    split_ifs at hc with hck
    obtain ⟨i, hi⟩ := (h c w).mp hc
    have hij : i ≠ j := by
      rintro rfl
      rw [hj] at hi
      exact hck (Prod.mk.inj (Option.some.inj hi)).1.symm
    exact ⟨i, by rw [update_of_ne hij, hi]⟩
  · rintro ⟨i, hi⟩
    rw [update_apply] at hi
    split_ifs at hi with hij
    have hc : c ≠ k := by
      rintro rfl
      exact hij (hd i j c w v hi hj)
    rw [if_neg hc]
    exact (h c w).mpr ⟨i, hi⟩

end Slots
end Lib
end Xv6
