import Mathlib.Algebra.Group.Int.Defs
import Mathlib.Algebra.Group.Nat.Defs
import Mathlib.Logic.Function.Basic
import Mathlib.Tactic.Common

/-!
# The two versions of `memmove` (`string.c`, `ulib.c`)

The kernel's `memmove` copies from the end where the destination starts inside the source; that of
the user library always copies from the start.  Both loops run in place, so what a turn reads may
have been written by an earlier one.

* `copyDown_eq` says that the copy from the end is right where the destination is above the source.
* `copyUp_of_le` says that the copy from the start is right where it is not above the source.
* `copyUp_of_lt` says what the copy from the start does where it is: the bytes before the
  destination are repeated over and over.

Addresses are below `2 ^ 32`, and pointers wrap around.
-/

namespace Xv6
namespace Str

open Function

/-- A byte for each address. -/
abbrev Mem : Type := Nat → UInt8

/-- The pointer `p + n`. -/
def plus (p n : Nat) : Nat := (p + n) % 2 ^ 32

/-- The pointer `p - 1`. -/
def pred (p : Nat) : Nat := (p + 2 ^ 32 - 1) % 2 ^ 32

/-- The loop `while(n-- > 0) *d++ = *s++`. -/
def copyUp : Nat → Nat → Nat → Mem → Mem
  | 0, _, _, mem => mem
  | n + 1, d, s, mem => copyUp n (plus d 1) (plus s 1) (update mem d (mem s))

/-- The loop `while(n-- > 0) *--d = *--s`. -/
def copyDown : Nat → Nat → Nat → Mem → Mem
  | 0, _, _, mem => mem
  | n + 1, d, s, mem => copyDown n (pred d) (pred s) (update mem (pred d) (mem (pred s)))

/-- `memmove` of the kernel. -/
def kernelMemmove (mem : Mem) (dst src n : Nat) : Mem :=
  if src < dst ∧ plus src n > dst then
    copyDown n (plus dst n) (plus src n) mem
  else
    copyUp n dst src mem

/-- `memmove` of the user library; nothing is copied where the signed `n` is not positive. -/
def userMemmove (mem : Mem) (dst src : Nat) (n : Int) : Mem := copyUp n.toNat dst src mem

/-- The memory in which `n` bytes at `dst` are what the bytes at `src` were. -/
def moved (mem : Mem) (dst src n : Nat) : Mem := fun x =>
  if dst ≤ x ∧ x < dst + n then mem (src + (x - dst)) else mem x

variable {mem : Mem} {d s n dst src : Nat}

theorem plus_eq (h : d + n < 2 ^ 32) : plus d n = d + n := Nat.mod_eq_of_lt h

theorem pred_plus (h : d + n < 2 ^ 32) : pred (plus d (n + 1)) = d + n := by
  unfold pred plus
  omega

/-- A pointer that leaves the address space is not used any more. -/
theorem copyUp_wrap (n : Nat) (hd : d + (n + 1) ≤ 2 ^ 32) (hs : s + (n + 1) ≤ 2 ^ 32) (mem : Mem) :
    copyUp n (plus d 1) (plus s 1) mem = copyUp n (d + 1) (s + 1) mem := by
  cases n with
  | zero => rfl
  | succ n => rw [plus_eq (by omega), plus_eq (by omega)]

theorem copyDown_eq (h : s < d) (hd : d + n ≤ 2 ^ 32) (mem : Mem) :
    copyDown n (plus d n) (plus s n) mem = moved mem d s n := by
  induction n generalizing mem with
  | zero =>
    funext x
    rw [moved, if_neg (by omega)]
    rfl
  | succ n ih =>
    have hloop : copyDown (n + 1) (plus d (n + 1)) (plus s (n + 1)) mem =
        copyDown n (plus d n) (plus s n) (update mem (d + n) (mem (s + n))) := by
      rw [copyDown, pred_plus (by omega), pred_plus (by omega), plus_eq (by omega),
        plus_eq (by omega)]
    rw [hloop, ih (by omega)]
    funext x
    unfold moved
    -- the byte written is above everything that is still to be read
    by_cases hx : d ≤ x ∧ x < d + n
    · rw [if_pos hx, if_pos (by omega), update_of_ne (by omega)]
    · rw [if_neg hx]
      by_cases hlast : x = d + n
      · rw [hlast, update_self, if_pos (by omega), Nat.add_sub_cancel_left]
      · rw [update_of_ne hlast, if_neg (by omega)]

theorem copyUp_of_le (h : d ≤ s) (hs : s + n ≤ 2 ^ 32) (mem : Mem) :
    copyUp n d s mem = moved mem d s n := by
  induction n generalizing d s mem with
  | zero =>
    funext x
    rw [moved, if_neg (by omega)]
    rfl
  | succ n ih =>
    rw [copyUp, copyUp_wrap n (by omega) hs, ih (by omega) (by omega)]
    funext x
    unfold moved
    by_cases hfirst : x = d
    · rw [hfirst, if_neg (by omega), if_pos (by omega), update_self, Nat.sub_self]
      rfl
    · by_cases hx : d ≤ x ∧ x < d + (n + 1)
      · rw [if_pos (by omega), if_pos hx, update_of_ne (by omega),
          show s + 1 + (x - (d + 1)) = s + (x - d) by omega]
      · rw [if_neg (by omega), if_neg hx, update_of_ne hfirst]

/-- The distance from the source is the period of what is copied. -/
theorem copyUp_of_lt (h : s < d) (hd : d + n ≤ 2 ^ 32) (mem : Mem) :
    copyUp n d s mem = fun x =>
      if d ≤ x ∧ x < d + n then mem (s + (x - d) % (d - s)) else mem x := by
  induction n generalizing d s mem with
  | zero =>
    funext x
    rw [if_neg (by omega)]
    rfl
  | succ n ih =>
    rw [copyUp, copyUp_wrap n hd (by omega), ih (by omega) (by omega)]
    funext x
    by_cases hfirst : x = d
    · rw [hfirst, if_neg (by omega), if_pos (by omega), update_self, Nat.sub_self, Nat.zero_mod]
      rfl
    · by_cases hx : d ≤ x ∧ x < d + (n + 1)
      · rw [if_pos (by omega), if_pos hx, show d + 1 - (s + 1) = d - s by omega,
          show x - d = x - (d + 1) + 1 by omega]
        have hlt : (x - (d + 1)) % (d - s) < d - s := Nat.mod_lt _ (by omega)
        by_cases hwrap : (x - (d + 1)) % (d - s) + 1 = d - s
        · -- the byte to be read is the one that was just written
          rw [← Nat.mod_add_mod, hwrap, Nat.mod_self,
            show s + 1 + (x - (d + 1)) % (d - s) = d by omega, update_self]
          rfl
        · rw [← Nat.mod_add_mod, Nat.mod_eq_of_lt (by omega : _ + 1 < d - s),
            update_of_ne (by omega), Nat.add_right_comm, Nat.add_assoc]
      · rw [if_neg (by omega), if_neg hx, update_of_ne hfirst]

theorem kernelMemmove_eq (hdst : dst + n ≤ 2 ^ 32) (hsrc : src + n ≤ 2 ^ 32) :
    kernelMemmove mem dst src n = moved mem dst src n := by
  unfold kernelMemmove
  by_cases hlt : src < dst
  · have hend : plus src n = src + n := plus_eq (by omega)
    by_cases hover : plus src n > dst
    · rw [if_pos ⟨hlt, hover⟩, copyDown_eq hlt hdst]
    · rw [if_neg (by omega), copyUp_of_lt hlt hdst]
      funext x
      unfold moved
      by_cases hx : dst ≤ x ∧ x < dst + n
      · rw [if_pos hx, if_pos hx, Nat.mod_eq_of_lt (by omega)]
      · rw [if_neg hx, if_neg hx]
  · rw [if_neg (by omega), copyUp_of_le (by omega) hsrc]

/-- The bytes of the source repeat with the distance to the destination. -/
def Repeats (mem : Mem) (dst src n : Nat) : Prop :=
  ∀ i, i < n → mem (src + i) = mem (src + i % (dst - src))

instance : Decidable (Repeats mem dst src n) := inferInstanceAs (Decidable (∀ i, i < n → _))

theorem userMemmove_eq_iff (hdst : dst + n ≤ 2 ^ 32) (hsrc : src + n ≤ 2 ^ 32) :
    userMemmove mem dst src n = moved mem dst src n ↔
      (src < dst ∧ dst < src + n → Repeats mem dst src n) := by
  unfold userMemmove
  rw [Int.toNat_natCast]
  by_cases hlt : src < dst
  · rw [copyUp_of_lt hlt hdst]
    constructor
    · intro heq _ i hi
      have hbyte := congrFun heq (dst + i)
      simp only [moved] at hbyte
      rw [if_pos (by omega), if_pos (by omega), Nat.add_sub_cancel_left] at hbyte
      exact hbyte.symm
    · intro hrep
      funext x
      unfold moved
      by_cases hx : dst ≤ x ∧ x < dst + n
      · rw [if_pos hx, if_pos hx]
        by_cases hover : dst < src + n
        · exact (hrep ⟨hlt, hover⟩ (x - dst) (by omega)).symm
        · rw [Nat.mod_eq_of_lt (by omega)]
      · rw [if_neg hx, if_neg hx]
  · rw [copyUp_of_le (by omega) hsrc]
    exact iff_of_true rfl fun h => absurd h.1 hlt

/-- Both versions move the bytes, and so agree, exactly if the destination does not start inside
the source, behind its first byte, or else the source repeats. -/
theorem memmove_agree_iff (mem : Mem) (dst src n : Nat) (hdst : dst + n ≤ 2 ^ 32)
    (hsrc : src + n ≤ 2 ^ 32) :
    (kernelMemmove mem dst src n = moved mem dst src n ∧
      userMemmove mem dst src n = moved mem dst src n) ↔
    (src < dst ∧ dst < src + n → Repeats mem dst src n) := by
  rw [userMemmove_eq_iff hdst hsrc]
  exact and_iff_right (kernelMemmove_eq hdst hsrc)

/-- The destination starts below the source and ends inside it. -/
theorem memmove_agree_below : 0x1000 + 8 ≤ 2 ^ 32 ∧
    kernelMemmove (fun x => UInt8.ofNat x) 0x1000 0x1004 8 =
      moved (fun x => UInt8.ofNat x) 0x1000 0x1004 8 ∧
    userMemmove (fun x => UInt8.ofNat x) 0x1000 0x1004 8 =
      moved (fun x => UInt8.ofNat x) 0x1000 0x1004 8 :=
  ⟨by decide, (memmove_agree_iff _ 0x1000 0x1004 8 (by decide) (by decide)).mpr
    fun h => absurd h.1 (by decide)⟩

/-- Three bytes moved up by one: the user library copies the first of them three times. -/
theorem memmove_differ :
    kernelMemmove (fun x => UInt8.ofNat x) 0x1001 0x1000 3 0x1002 = 1 ∧
    userMemmove (fun x => UInt8.ofNat x) 0x1001 0x1000 3 0x1002 = 0 ∧
    moved (fun x => UInt8.ofNat x) 0x1001 0x1000 3 0x1002 = 1 := by
  decide +kernel

end Str
end Xv6
