import Mathlib.Data.List.Basic
import Mathlib.Tactic.Common

/-!
# Overwriting a part of a sequence

A sequence is a function on positions.  `patch f off src` is `f` with the list `src` laid
over it from position `off` on.  The rules say how patches that meet compose, so that a
loop which copies a buffer piece by piece can be shown to copy it as a whole.
-/

namespace Xv6
namespace Lib

variable {α : Type}

/-- Lay `src` over `f`, from position `off` on. -/
def patch (f : Nat → α) (off : Nat) (src : List α) (o : Nat) : α :=
  if off ≤ o then src[o - off]?.getD (f o) else f o

variable {f g : Nat → α} {off o n : Nat} {src : List α}

theorem patch_of_lt (h : o < off) : patch f off src o = f o := by
  simp [patch, Nat.not_le.mpr h]

theorem patch_of_le (h : off + src.length ≤ o) : patch f off src o = f o := by
  unfold patch
  split
  · rw [List.getElem?_eq_none (by omega), Option.getD_none]
  · rfl

theorem patch_inside (hlo : off ≤ o) (hhi : o - off < src.length) :
    patch f off src o = src[o - off] := by
  simp [patch, hlo, hhi]

@[simp] theorem patch_nil : patch f off [] = f := by
  funext o
  simp [patch]

/-- Positions outside `src` decide nothing else: patches of agreeing sequences agree. -/
theorem patch_congr (h : f o = g o) : patch f off src o = patch g off src o := by
  simp [patch, h]

/-- A patch may be laid at the same place of a longer sequence. -/
theorem patch_shift {a : Nat} (h : f o = g (a + o)) :
    patch f off src o = patch g (a + off) src (a + o) := by
  simp [patch, h, Nat.add_sub_add_left]

/-- Two patches that meet are one. -/
theorem patch_append (a b : List α) :
    patch (patch f off a) (off + a.length) b = patch f off (a ++ b) := by
  funext o
  by_cases hlo : off ≤ o
  · by_cases hmid : o - off < a.length
    · rw [patch_of_lt (by omega), patch_inside hlo hmid,
        patch_inside hlo (by rw [List.length_append]; omega), List.getElem_append_left]
    · -- the second list begins where the first ends
      have hidx : o - (off + a.length) = o - off - a.length := by omega
      simp only [patch, show off + a.length ≤ o by omega, hlo, if_true, hidx,
        List.getElem?_append_right (Nat.le_of_not_lt hmid),
        List.getElem?_eq_none (Nat.le_of_not_lt hmid), Option.getD_none]
  · rw [patch_of_lt (by omega), patch_of_lt (by omega), patch_of_lt (by omega)]

/-- The first `n` positions of a sequence. -/
def firsts (f : Nat → α) (n : Nat) : List α := (List.range n).map f

@[simp] theorem length_firsts : (firsts f n).length = n := by
  simp [firsts]

theorem getElem_firsts {h : o < (firsts f n).length} : (firsts f n)[o] = f o := by
  simp [firsts]

theorem getD_firsts (b : α) (h : o < n) : (firsts f n).getD o b = f o := by
  rw [List.getD_eq_getElem?_getD, List.getElem?_eq_getElem (by rw [length_firsts]; exact h),
    Option.getD_some, getElem_firsts]

theorem firsts_congr (h : ∀ o, o < n → f o = g o) : firsts f n = firsts g n := by
  apply List.map_congr_left
  intro o ho
  exact h o (List.mem_range.mp ho)

/-- The first positions in two parts. -/
theorem firsts_add (f : Nat → α) (m n : Nat) :
    firsts f (m + n) = firsts f m ++ firsts (fun i => f (m + i)) n := by
  rw [firsts, List.range_add, List.map_append, List.map_map]
  rfl

/-- The patch itself, read back. -/
theorem firsts_patch_self (hn : src.length = n) :
    firsts (fun i => patch f off src (off + i)) n = src := by
  apply List.ext_getElem
  · rw [length_firsts, hn]
  · intro i hi hi'
    have hidx : off + i - off = i := Nat.add_sub_cancel_left ..
    rw [getElem_firsts, patch_inside (Nat.le_add_right ..) (by omega)]
    simp only [hidx]

end Lib
end Xv6
