import Mathlib.Tactic.Common

/-!
# Ring buffers with wrapping counters

A ring buffer of capacity `cap` has two counters, of the elements taken out and of those
put in, that count modulo `m`.  If `cap` divides `m` and is smaller, the counters tell a
full buffer from an empty one, and the elements come out in the order in which they went
in, however often the counters wrap.
-/

namespace Xv6
namespace Lib

open Function

/-- A ring buffer: the cells and the two counters. -/
structure Ring (α : Type) where
  data : Nat → α
  nread : Nat
  nwrite : Nat

namespace Ring

variable {α : Type} {r : Ring α} {cap m k : Nat} {stored : List α}

/-- Put an element in. -/
def push (cap m : Nat) (r : Ring α) (x : α) : Ring α :=
  { r with data := update r.data (r.nwrite % cap) x, nwrite := (r.nwrite + 1) % m }

/-- The element that comes out next. -/
def front (cap : Nat) (r : Ring α) : α := r.data (r.nread % cap)

/-- Take the last element back. -/
def unpush (m : Nat) (r : Ring α) : Ring α := { r with nwrite := (r.nwrite + (m - 1)) % m }

/-- The first `n` elements, the oldest first. -/
def contents (cap : Nat) (r : Ring α) (n : Nat) : List α :=
  (List.range n).map fun i => r.data ((r.nread + i) % cap)

/-- Take an element out. -/
def pop (m : Nat) (r : Ring α) : Ring α := { r with nread := (r.nread + 1) % m }

/-- The elements of `stored` have been put in, and the first `k` of them taken out. -/
structure Holds (cap m : Nat) (r : Ring α) (stored : List α) (k : Nat) : Prop where
  nread : r.nread = k % m
  nwrite : r.nwrite = stored.length % m
  taken : k ≤ stored.length
  fits : stored.length ≤ k + cap
  cells : ∀ j, k ≤ j → j < stored.length → stored[j]? = some (r.data (j % cap))

theorem eq_of_mod_eq {a b : Nat} (hle : a ≤ b) (hlt : b < a + m) (h : a % m = b % m) : a = b := by
  have hdvd : m ∣ b - a := Nat.dvd_of_mod_eq_zero (Nat.sub_mod_eq_zero_of_mod_eq h.symm)
  have := Nat.eq_zero_of_dvd_of_lt hdvd (by omega)
  omega

namespace Holds

/-- The counters are equal exactly if the buffer is empty. -/
theorem empty_iff (h : Holds cap m r stored k) (hlt : cap < m) :
    r.nread = r.nwrite ↔ k = stored.length := by
  have htaken := h.taken
  have hfits := h.fits
  rw [h.nread, h.nwrite]
  constructor
  · exact fun heq => eq_of_mod_eq htaken (by omega) heq
  · intro heq
    rw [heq]

/-- The distance of the counters is the number of elements in the buffer. -/
theorem distance (h : Holds cap m r stored k) (hlt : cap < m) :
    (r.nwrite + (m - r.nread)) % m = stored.length - k := by
  obtain ⟨d, hd⟩ := Nat.exists_eq_add_of_le h.taken
  have hfits := h.fits
  have hk : k % m < m := Nat.mod_lt k (by omega)
  rw [h.nread, h.nwrite, hd, Nat.mod_add_mod]
  have hsplit : k + d + (m - k % m) = d + m * (k / m + 1) := by
    have := Nat.div_add_mod k m
    rw [Nat.mul_add]
    omega
  rw [hsplit, Nat.add_mul_mod_self_left, Nat.mod_eq_of_lt (by omega)]
  omega

/-- An element goes in at the end, if the buffer is not full. -/
theorem push (h : Holds cap m r stored k) (hdvd : cap ∣ m) (hroom : stored.length ≠ k + cap)
    (x : α) : Holds cap m (r.push cap m x) (stored ++ [x]) k := by
  have htaken := h.taken
  have hfits := h.fits
  have hcell : r.nwrite % cap = stored.length % cap := by
    rw [h.nwrite, Nat.mod_mod_of_dvd _ hdvd]
  constructor
  · exact h.nread
  · show (r.nwrite + 1) % m = _
    rw [h.nwrite, Nat.mod_add_mod, List.length_append, List.length_singleton]
  · rw [List.length_append, List.length_singleton]
    omega
  · rw [List.length_append, List.length_singleton]
    omega
  · intro j hj hlen
    rw [List.length_append, List.length_singleton] at hlen
    show _ = some (update r.data (r.nwrite % cap) x (j % cap))
    rw [hcell]
    by_cases hlast : j = stored.length
    · subst hlast
      simp
    · have hne : j % cap ≠ stored.length % cap := fun heq =>
        hlast (eq_of_mod_eq (by omega) (by omega) heq)
      rw [update_of_ne hne, List.getElem?_append_left (by omega)]
      exact h.cells j hj (by omega)

/-- The oldest element comes out, if the buffer is not empty. -/
theorem pop (h : Holds cap m r stored k) (hdvd : cap ∣ m) (hne : k ≠ stored.length) :
    stored[k]? = some (r.front cap) ∧ Holds cap m (r.pop m) stored (k + 1) := by
  have htaken := h.taken
  have hfits := h.fits
  have hcell : r.nread % cap = k % cap := by
    rw [h.nread, Nat.mod_mod_of_dvd _ hdvd]
  constructor
  · rw [front, hcell]
    exact h.cells k (Nat.le_refl k) (by omega)
  · constructor
    · show (r.nread + 1) % m = _
      rw [h.nread, Nat.mod_add_mod]
    · exact h.nwrite
    · omega
    · omega
    · exact fun j hj hlen => h.cells j (by omega) hlen

/-- The last element is taken back, if it has not been taken out. -/
theorem unpush {x : α} (h : Holds cap m r (stored ++ [x]) k) (hdvd : cap ∣ m) (hm : 0 < m)
    (hk : k ≤ stored.length) :
    r.data ((r.unpush m).nwrite % cap) = x ∧ Holds cap m (r.unpush m) stored k := by
  have hfits := h.fits
  have hwrite : (r.unpush m).nwrite = stored.length % m := by
    show (r.nwrite + (m - 1)) % m = _
    rw [h.nwrite, List.length_append, List.length_singleton, Nat.mod_add_mod,
      show stored.length + 1 + (m - 1) = stored.length + m by omega, Nat.add_mod_right]
  rw [List.length_append, List.length_singleton] at hfits
  constructor
  · have hlast := h.cells stored.length hk (by rw [List.length_append]; exact Nat.lt_succ_self _)
    rw [List.getElem?_concat_length] at hlast
    rw [hwrite, Nat.mod_mod_of_dvd _ hdvd]
    exact (Option.some.inj hlast).symm
  · refine ⟨h.nread, hwrite, hk, by omega, ?_⟩
    intro j hj hlen
    have hcell := h.cells j hj (by rw [List.length_append]; omega)
    rwa [List.getElem?_append_left hlen] at hcell

/-- The elements that were put in before a certain time. -/
theorem upTo {a b : List α} (h : Holds cap m r (a ++ b) k) (hk : k ≤ a.length) {w : Nat}
    (hw : w = a.length % m) : Holds cap m ⟨r.data, r.nread, w⟩ a k := by
  have hfits := h.fits
  rw [List.length_append] at hfits
  refine ⟨h.nread, hw, hk, by omega, ?_⟩
  intro j hj hlen
  have hcell := h.cells j hj (by rw [List.length_append]; omega)
  rwa [List.getElem?_append_left hlen] at hcell

/-- The cells hold the elements that were not taken out. -/
theorem contents_eq (h : Holds cap m r stored k) (hdvd : cap ∣ m) :
    r.contents cap (stored.length - k) = stored.drop k := by
  apply List.ext_getElem?
  intro i
  rw [Ring.contents, List.getElem?_map, List.getElem?_drop]
  by_cases hi : i < stored.length - k
  · rw [List.getElem?_range hi, h.cells (k + i) (Nat.le_add_right k i) (by omega), Option.map_some,
      h.nread, Nat.add_mod, Nat.mod_mod_of_dvd _ hdvd, ← Nat.add_mod]
  · rw [List.getElem?_eq_none (by rw [List.length_range]; omega),
      List.getElem?_eq_none (by omega), Option.map_none]

end Holds

end Ring

end Lib
end Xv6
