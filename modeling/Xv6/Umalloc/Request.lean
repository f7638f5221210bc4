import Xv6.Umalloc.Alloc

/-!
# Requests of any size (`umalloc.c`)

A request is rounded to units of one header, and the units back to bytes for `sbrk`, in 32-bit
arithmetic.  Near the top of the range the rounding wraps around, so that a request for almost all
of the address space is served with a block of one unit; and from 16 bytes below `2 ^ 31` on, the
number of bytes is negative for `sbrk`, which then takes memory away, or 0.

* `Honours` is what a caller expects of `malloc`.
* `mallocLoop_log`: what the loop asks of `sbrk`.
* `malloc_honours_iff` says which requests are honoured whatever the state of the allocator.
-/

namespace Xv6
namespace Umalloc

open Lib

/-- `malloc` returns 0 or a block that has room for the request and lies in memory from `sbrk`; and
what it asks of `sbrk` is not negative. -/
def Honours (base : Nat) (sbrk : Sbrk) (s : Heap) (nbytes : Nat) : Prop :=
  ∃ r s', malloc base sbrk s nbytes = some (r, s') ∧
    (∃ new, s'.log = new ++ s.log ∧ ∀ call ∈ new, call.1 < 2 ^ 31) ∧
    (r = 0 ∨ ∃ b, r = b + 8 ∧ nbytes ≤ 8 * (s'.size b - 1) ∧
      ∀ u ∈ unitsOf 8 b (s'.size b), u ∈ granted s'.log)

variable {base b p n nunits nbytes : Nat} {sbrk : Sbrk} {F L : Finset Nat} {s s' : Heap}

/-! ### What is asked of `sbrk` -/

theorem free_log {ap : Nat} (h : free s ap = some s') : s'.log = s.log := by
  unfold free at h
  obtain ⟨p, -, h⟩ := Option.bind_eq_some_iff.mp h
  cases h
  unfold joinLower joinUpper Heap.setPtr Heap.setSize
  split_ifs <;> rfl

theorem carve_log (s : Heap) (nunits prevp p : Nat) : (carve s nunits prevp p).2.log = s.log := by
  unfold carve Heap.setPtr Heap.setSize
  split_ifs <;> rfl

theorem morecore_log {r : Nat} (h : morecore sbrk s nunits = some (r, s')) :
    s'.log = (increment nunits, sbrk s.log (increment nunits)) :: s.log := by
  cases hcall : sbrk s.log (increment nunits) with
  | none =>
    rw [morecore_none hcall] at h
    cases h
    rfl
  | some a =>
    unfold increment at hcall ⊢
    unfold morecore at h
    dsimp only at h
    rw [hcall] at h
    obtain ⟨t, hfree, h⟩ := Option.bind_eq_some_iff.mp h
    cases h
    exact free_log hfree

/-- The loop asks for the same number of bytes each time. -/
theorem mallocLoop_log {fuel r : Nat} (h : mallocLoop sbrk nunits fuel b p s = some (r, s')) :
    ∃ new, s'.log = new ++ s.log ∧ ∀ call ∈ new, call.1 = increment nunits := by
  induction fuel generalizing b p s with
  | zero => cases h
  | succ fuel ih =>
    rw [mallocLoop] at h
    split_ifs at h with hlarge hlast
    · have hlog := carve_log s nunits b p
      rw [Option.some.inj h] at hlog
      exact ⟨[], hlog, fun _ h => absurd h List.not_mem_nil⟩
    · obtain ⟨⟨p', t⟩, hmore, h⟩ := Option.bind_eq_some_iff.mp h
      have hlog := morecore_log hmore
      dsimp only at h
      split_ifs at h
      · cases h
        exact ⟨[_], hlog, by simp⟩
      · obtain ⟨new, hnew, hall⟩ := ih h
        refine ⟨new ++ [_], by rw [hnew, hlog, List.append_assoc]; rfl, fun call hcall => ?_⟩
        rcases List.mem_append.mp hcall with hcall | hcall
        · exact hall call hcall
        · rw [List.mem_singleton.mp hcall]
    · exact ih h

/-! ### Requests that are honoured -/

/-- Up to here the rounding is exact, and the number of bytes is not negative. -/
theorem unitsFor_exact (h : nbytes ≤ 2 ^ 31 - 16) :
    0 < unitsFor nbytes ∧ unitsFor nbytes < 2 ^ 28 ∧ nbytes ≤ 8 * (unitsFor nbytes - 1) ∧
      increment (unitsFor nbytes) < 2 ^ 31 := by
  unfold increment unitsFor sizeofHeader
  split_ifs <;> omega

theorem honours_of_le (hpos : 0 < base) (hbase : base + 8 ≤ 2 ^ 32) (hsbrk : Honest base sbrk)
    (h : Ready base L s) (hn : nbytes ≤ 2 ^ 31 - 16) : Honours base sbrk s nbytes := by
  obtain ⟨hunits, hunits', hroom, hinc⟩ := unitsFor_exact hn
  obtain ⟨⟨F, hinv⟩, -⟩ := h.start hpos
  have hserved := mallocLoop_served hpos hbase hsbrk hinv hunits hunits'
  have hstart : (s.start base).log = s.log := by
    unfold Heap.start
    split_ifs <;> rfl
  cases hrun : mallocLoop sbrk (unitsFor nbytes) loopFuel (s.start base).freep
      ((s.start base).ptr (s.start base).freep) (s.start base) with
  | none =>
    rw [hrun] at hserved
    exact absurd hserved id
  | some result =>
    obtain ⟨r, s'⟩ := result
    obtain ⟨new, hnew, hall⟩ := mallocLoop_log hrun
    rw [hrun] at hserved
    refine ⟨r, s', hrun, ⟨new, hstart ▸ hnew, fun call hcall => ?_⟩, ?_⟩
    · rw [hall call hcall]
      exact hinc
    · rcases hserved with ⟨rfl, -⟩ | ⟨b, rfl, hhanded⟩
      · exact .inl rfl
      · obtain ⟨F', hinv'⟩ := hhanded.inv
        refine .inr ⟨b, rfl, by rw [hhanded.size]; exact hroom, fun u hu => ?_⟩
        exact hinv'.arena.tiling.mem_of_unit
          (Arena.mem_blocks_of_live (Finset.mem_insert_self b L)) hu

/-! ### Requests that are not -/

/-- An `sbrk` that grants one region, or nothing if it is asked for more. -/
def oneGrant : Sbrk := fun log n => if log = [] ∧ n ≤ 0x8000 then some 0x10000 else none

theorem oneGrant_honest : Honest 0x1000 oneGrant := by
  intro log n a h
  unfold oneGrant at h
  split_ifs at h with hfirst
  obtain ⟨rfl, hn⟩ := hfirst
  cases h
  exact ⟨⟨by decide, by omega, by omega, fun m b hmem => absurd hmem List.not_mem_nil⟩, by omega⟩

theorem blank_ready : Ready 0x1000 ∅ blank := by
  refine .inl ⟨rfl, rfl, ?_⟩
  ext u
  refine iff_of_false ?_ (Set.notMem_empty u)
  rintro ⟨n, a, hmem, -⟩
  exact absurd hmem List.not_mem_nil

/-- The three ways in which a larger request goes wrong: the number of bytes is negative, or 0, or the
request is rounded to one unit. -/
theorem unitsFor_wrong (h : 2 ^ 31 - 16 < nbytes) (hn : nbytes < 2 ^ 32) :
    2 ^ 31 ≤ increment (unitsFor nbytes) ∨ unitsFor nbytes = 2 ^ 29 ∨ unitsFor nbytes = 1 := by
  unfold increment unitsFor sizeofHeader
  split_ifs <;> omega

/-- What is seen of a result: the pointer, the size of its block and the calls of `sbrk`. -/
def outcome (run : Option (Nat × Heap)) : Option (Nat × Nat × List (Nat × Option Nat)) :=
  run.map fun result => (result.1, result.2.size (result.1 - 8), result.2.log)

/-- The first `malloc` of a program depends on the number of units. -/
def firstCall (nunits : Nat) : Option (Nat × Heap) :=
  mallocLoop oneGrant nunits loopFuel 0x1000 0x1000 (blank.start 0x1000)

theorem firstCall_negative (h : 2 ^ 31 ≤ increment nunits) (hn : 0 < nunits) :
    outcome (firstCall nunits) = some (0, 0, [(increment nunits, none)]) := by
  have hcall : oneGrant (blank.start 0x1000).log (increment nunits) = none := if_neg (by omega)
  have hsize : ¬(blank.start 0x1000).size 0x1000 ≥ nunits := by
    show ¬0 ≥ nunits
    omega
  rw [firstCall, show loopFuel = (2 ^ 34 - 1) + 1 from rfl, mallocLoop, if_neg hsize,
    if_pos (show 0x1000 = (blank.start 0x1000).freep from rfl), morecore_none hcall]
  rfl

/-- The first call of a program, with such a request. -/
theorem blank_not_honours (h : 2 ^ 31 - 16 < nbytes) (hn : nbytes < 2 ^ 32) :
    ¬Honours 0x1000 oneGrant blank nbytes := by
  rintro ⟨r, s', hrun, ⟨new, hnew, hall⟩, hblock⟩
  have hseen : outcome (firstCall (unitsFor nbytes)) = some (r, s'.size (r - 8), s'.log) := by
    rw [show firstCall (unitsFor nbytes) = some (r, s') from hrun]
    rfl
  rcases unitsFor_wrong h hn with hneg | hunits | hunits
  · rw [firstCall_negative hneg (Nat.succ_pos _)] at hseen
    simp only [Option.some.injEq, Prod.mk.injEq] at hseen
    have hfirst := hall (increment (unitsFor nbytes), none) (by
      rw [← hseen.2.2] at hnew
      rw [← List.append_nil new, ← show blank.log = [] from rfl, ← hnew]
      exact List.mem_singleton_self _)
    omega
  · have heval : outcome (firstCall (2 ^ 29)) = some (0x10008, 2 ^ 29, [(0, some 0x10000)]) := by
      decide +kernel
    rw [hunits, heval] at hseen
    simp only [Option.some.injEq, Prod.mk.injEq] at hseen
    obtain ⟨rfl, hsize, hlog⟩ := hseen
    rcases hblock with hzero | ⟨b, hb, -, hgranted⟩
    · cases hzero
    · obtain rfl : b = 0x10000 := by omega
      have hunit := hgranted 0x10000 (mem_unitsOf_start (by rw [← hsize]; decide))
      rw [← hlog] at hunit
      obtain ⟨n, a, hmem, j, hj, -⟩ := hunit
      cases List.mem_singleton.mp hmem
      exact absurd hj (Nat.not_lt_zero j)
  · have heval : outcome (firstCall 1) = some (0x18000, 1, [(0x8000, some 0x10000)]) := by
      decide +kernel
    rw [hunits, heval] at hseen
    simp only [Option.some.injEq, Prod.mk.injEq] at hseen
    obtain ⟨rfl, hsize, -⟩ := hseen
    rcases hblock with hzero | ⟨b, hb, hroom, -⟩
    · cases hzero
    · rw [show b = 0x18000 - 8 by omega, ← hsize] at hroom
      omega

/-- Exactly the requests of at most `2 ^ 31 - 16` bytes are honoured in every state of the
allocator. -/
theorem malloc_honours_iff (nbytes : Nat) (hn : nbytes < 2 ^ 32) :
    (∀ base sbrk L s, 0 < base → base + 8 ≤ 2 ^ 32 → Honest base sbrk → Ready base L s →
      Honours base sbrk s nbytes) ↔ nbytes ≤ 2 ^ 31 - 16 := by
  constructor
  · intro h
    by_contra hlarge
    exact blank_not_honours (Nat.lt_of_not_le hlarge) hn
      (h 0x1000 oneGrant ∅ blank (by decide) (by decide) oneGrant_honest blank_ready)
  · intro hle base sbrk L s hpos hbase hsbrk hready
    exact honours_of_le hpos hbase hsbrk hready hle

/-- A request of 100 bytes. -/
theorem malloc_honours_hundred : 100 < 2 ^ 32 ∧
    ∀ base sbrk L s, 0 < base → base + 8 ≤ 2 ^ 32 → Honest base sbrk → Ready base L s →
      Honours base sbrk s 100 :=
  ⟨by decide, (malloc_honours_iff 100 (by decide)).mpr (by decide)⟩

/-- As the first call of a program, `malloc(0xFFFFFFFF)` returns a block of one unit, which is its
header; and `malloc(0x80000000)` asks `sbrk` for a negative number of bytes. -/
theorem malloc_wraps :
    Honest 0x1000 oneGrant ∧ Ready 0x1000 ∅ blank ∧ (¬Honours 0x1000 oneGrant blank 0xFFFFFFFF ∧
        outcome (malloc 0x1000 oneGrant blank 0xFFFFFFFF) =
          some (0x18000, 1, [(0x8000, some 0x10000)])) ∧
      ¬Honours 0x1000 oneGrant blank 0x80000000 ∧
        outcome (malloc 0x1000 oneGrant blank 0x80000000) = some (0, 0, [(0x80000008, none)]) :=
  ⟨oneGrant_honest, blank_ready, ⟨blank_not_honours (by decide) (by decide), by decide +kernel⟩,
    blank_not_honours (by decide) (by decide), by decide +kernel⟩

end Umalloc
end Xv6
