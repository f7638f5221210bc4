import Mathlib.Algebra.Group.Int.Defs
import Mathlib.Algebra.Group.Nat.Defs
import Mathlib.Data.Finset.Basic
import Mathlib.Logic.Function.Basic
import Mathlib.Tactic.Common

/-!
# The memory allocator of user programs (`umalloc.c`)

Every block starts with a header: the next block of the free list, and the size of the block in
units of one header.  The model keeps the two fields of every header as functions of its address;
what the program stores in its blocks is not modelled.

* `Heap` is the memory of the allocator, with a log of the calls of `sbrk`.
* `free`, `morecore` and `malloc` are the functions of the source.  Their loops run on a fuel, and
  `none` says that it ran out.
* `World.step` is a call made by the program; the world remembers which blocks it was given.
-/

namespace Xv6
namespace Umalloc

open Function

/-- `sizeof(Header)`. -/
def sizeofHeader : Nat := 8

/-- The header pointer `p + n`. -/
def plus (p n : Nat) : Nat := (p + sizeofHeader * n) % 2 ^ 32

/-- The memory of the allocator. -/
structure Heap where
  /-- `p->s.ptr`. -/
  ptr : Nat → Nat
  /-- `p->s.size`. -/
  size : Nat → Nat
  /-- 0 stands for the null pointer. -/
  freep : Nat
  /-- The calls of `sbrk` with what they returned, the last one first; `none` is -1. -/
  log : List (Nat × Option Nat)

/-- Store `p->s.ptr`. -/
def Heap.setPtr (h : Heap) (p x : Nat) : Heap := { h with ptr := update h.ptr p x }

/-- Store `p->s.size`. -/
def Heap.setSize (h : Heap) (p n : Nat) : Heap := { h with size := update h.size p n }

/-- More turns than the loops take. -/
def loopFuel : Nat := 2 ^ 34

/-- The loop of `free`: the block of the free list that `bp` goes behind. -/
def freeLoop (h : Heap) (bp : Nat) : Nat → Nat → Option Nat
  | 0, _ => none
  | fuel + 1, p =>
    if ¬(bp > p ∧ bp < h.ptr p) then
      if p ≥ h.ptr p ∧ (bp > p ∨ bp < h.ptr p) then
        some p
      else
        freeLoop h bp fuel (h.ptr p)
    else
      some p

/-- Join `bp` with the block above it, if they meet. -/
def joinUpper (h : Heap) (bp p : Nat) : Heap :=
  if plus bp (h.size bp) = h.ptr p then
    (h.setSize bp ((h.size bp + h.size (h.ptr p)) % 2 ^ 32)).setPtr bp (h.ptr (h.ptr p))
  else
    h.setPtr bp (h.ptr p)

/-- Join `bp` with the block below it, if they meet. -/
def joinLower (h : Heap) (bp p : Nat) : Heap :=
  if plus p (h.size p) = bp then
    (h.setSize p ((h.size p + h.size bp) % 2 ^ 32)).setPtr p (h.ptr bp)
  else
    h.setPtr p bp

/-- Put the block at `ap` back on the free list. -/
def free (h : Heap) (ap : Nat) : Option Heap := do
  let bp := (ap + 2 ^ 32 - sizeofHeader) % 2 ^ 32
  let p ← freeLoop h bp loopFuel h.freep
  some { joinLower (joinUpper h bp p) bp p with freep := p }

/-- What `sbrk` returns, from the calls before and the number of bytes asked for. -/
abbrev Sbrk : Type := List (Nat × Option Nat) → Nat → Option Nat

variable (base : Nat) (sbrk : Sbrk)

/-- Ask the system for memory; returns `freep`, or 0. -/
def morecore (h : Heap) (nu : Nat) : Option (Nat × Heap) :=
  let nu := if nu < 4096 then 4096 else nu
  let n := nu * sizeofHeader % 2 ^ 32
  let p := sbrk h.log n
  let h := { h with log := (n, p) :: h.log }
  match p with
  | none => some (0, h)
  | some hp => do
    let h ← free (h.setSize hp nu) (plus hp 1)
    some (h.freep, h)

/-- The block `p` is large enough: hand out all of it, or its tail. -/
def carve (h : Heap) (nunits prevp p : Nat) : Nat × Heap :=
  if h.size p = nunits then
    (plus p 1, { h.setPtr prevp (h.ptr p) with freep := prevp })
  else
    let h := h.setSize p (h.size p - nunits)
    let p := plus p (h.size p)
    (plus p 1, { h.setSize p nunits with freep := prevp })

/-- The loop of `malloc`; the result is 0 where there is no memory. -/
def mallocLoop (nunits : Nat) : Nat → Nat → Nat → Heap → Option (Nat × Heap)
  | 0, _, _, _ => none
  | fuel + 1, prevp, p, h =>
    if h.size p ≥ nunits then
      some (carve h nunits prevp p)
    else if p = h.freep then do
      let (p, h) ← morecore sbrk h nunits
      if p = 0 then
        some (0, h)
      else
        mallocLoop nunits fuel p (h.ptr p) h
    else
      mallocLoop nunits fuel p (h.ptr p) h

/-- How many units a request takes, its header included. -/
def unitsFor (nbytes : Nat) : Nat :=
  (nbytes + sizeofHeader - 1) % 2 ^ 32 / sizeofHeader + 1

/-- The free list of a program that has not allocated yet: `base` alone. -/
def Heap.start (h : Heap) : Heap :=
  if h.freep = 0 then
    { (h.setPtr base base).setSize base 0 with freep := base }
  else
    h

/-- A block with room for `nbytes`. -/
def malloc (h : Heap) (nbytes : Nat) : Option (Nat × Heap) :=
  let h := h.start base
  mallocLoop sbrk (unitsFor nbytes) loopFuel h.freep (h.ptr h.freep) h

/-- The calls a program makes. -/
inductive Call
  | malloc (nbytes : Nat)
  | free (ap : Nat)
  deriving DecidableEq, Repr

/-- The allocator and the headers of the blocks that the program holds. -/
structure World where
  heap : Heap
  live : Finset Nat

/-- A call: requests are below `2 ^ 30` bytes, and only live blocks are freed. -/
def World.step (w : World) : Call → Option World
  | .malloc nbytes =>
    if nbytes < 2 ^ 30 then do
      let (r, h) ← Umalloc.malloc base sbrk w.heap nbytes
      some ⟨h, if r = 0 then w.live else insert (r - sizeofHeader) w.live⟩
    else
      none
  | .free ap =>
    if sizeofHeader ≤ ap ∧ ap - sizeofHeader ∈ w.live then do
      let h ← Umalloc.free w.heap ap
      some ⟨h, w.live.erase (ap - sizeofHeader)⟩
    else
      none

end Umalloc
end Xv6
