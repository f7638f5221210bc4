import Mathlib.Algebra.Group.Int.Defs
import Mathlib.Algebra.Group.Nat.Defs
import Mathlib.Logic.Function.Basic
import Mathlib.Tactic.Common

/-!
# Disk blocks

A disk block is `BSIZE` bytes.  The file system and the log also read blocks as
arrays of 32-bit little-endian words (`uint` and `int` in the source), so this
module provides both views and the laws that connect them: writing a word is
seen by reading that word and by no other aligned word.
-/

namespace Xv6

/-- Block size (`fs.h`). -/
def BSIZE : Nat := 512

/-- The contents of one disk block. -/
abbrev Block : Type := Fin BSIZE → UInt8

namespace Block

/-- The byte at offset `i`; zero outside the block. -/
def byte (b : Block) (i : Nat) : UInt8 :=
  if h : i < BSIZE then b ⟨i, h⟩ else 0

/-- The block whose byte at offset `i` is `f i`. -/
def ofFn (f : Nat → UInt8) : Block := fun i => f i.val

/-- A block of zeros (`memset(bp->data, 0, BSIZE)`). -/
def zero : Block := fun _ => 0

@[simp] theorem byte_ofFn (f : Nat → UInt8) {i : Nat} (hi : i < BSIZE) :
    byte (ofFn f) i = f i := by
  simp [byte, ofFn, hi]

@[simp] theorem byte_zero (i : Nat) : byte zero i = 0 := by
  simp [byte, zero]

/-- The `i`-th 32-bit word, as an unsigned number. -/
def word (b : Block) (i : Nat) : Nat :=
  (byte b (4 * i)).toNat + 256 * (byte b (4 * i + 1)).toNat +
    65536 * (byte b (4 * i + 2)).toNat + 16777216 * (byte b (4 * i + 3)).toNat

/-- Store the 32-bit word `v` at word index `i`. -/
def setWord (b : Block) (i v : Nat) : Block := ofFn fun k =>
  if k = 4 * i then UInt8.ofNat v
  else if k = 4 * i + 1 then UInt8.ofNat (v / 256)
  else if k = 4 * i + 2 then UInt8.ofNat (v / 65536)
  else if k = 4 * i + 3 then UInt8.ofNat (v / 16777216)
  else byte b k

theorem word_lt (b : Block) (i : Nat) : word b i < 2 ^ 32 := by
  unfold word
  have h0 := (byte b (4 * i)).toNat_lt
  have h1 := (byte b (4 * i + 1)).toNat_lt
  have h2 := (byte b (4 * i + 2)).toNat_lt
  have h3 := (byte b (4 * i + 3)).toNat_lt
  omega

@[simp] theorem word_zero (i : Nat) : word zero i = 0 := by
  simp [word]

theorem word_setWord_self (b : Block) {i : Nat} (v : Nat) (hi : i < 128) :
    word (setWord b i v) i = v % 2 ^ 32 := by
  have hb : 4 * i + 3 < BSIZE := by
    simp only [BSIZE]
    omega
  unfold word setWord
  rw [byte_ofFn _ (by omega), byte_ofFn _ (by omega), byte_ofFn _ (by omega), byte_ofFn _ hb]
  simp only [if_true, show 4 * i + 1 ≠ 4 * i by omega, show 4 * i + 2 ≠ 4 * i by omega,
    show 4 * i + 3 ≠ 4 * i by omega, show 4 * i + 2 ≠ 4 * i + 1 by omega,
    show 4 * i + 3 ≠ 4 * i + 1 by omega, show 4 * i + 3 ≠ 4 * i + 2 by omega, if_false,
    UInt8.toNat_ofNat']
  omega

theorem word_setWord_of_ne (b : Block) {i j : Nat} (v : Nat) (hij : i ≠ j) :
    word (setWord b i v) j = word b j := by
  have hbyte : ∀ k, k < 4 → byte (setWord b i v) (4 * j + k) = byte b (4 * j + k) := by
    intro k hk
    by_cases hlt : 4 * j + k < BSIZE
    · unfold setWord
      rw [byte_ofFn _ hlt]
      simp only [show 4 * j + k ≠ 4 * i by omega, show 4 * j + k ≠ 4 * i + 1 by omega,
        show 4 * j + k ≠ 4 * i + 2 by omega, show 4 * j + k ≠ 4 * i + 3 by omega, if_false]
    · simp [byte, hlt]
  have h0 := hbyte 0 (by omega)
  have h1 := hbyte 1 (by omega)
  have h2 := hbyte 2 (by omega)
  have h3 := hbyte 3 (by omega)
  simp only [Nat.add_zero] at h0
  simp only [word, h0, h1, h2, h3]

end Block
end Xv6
