import Xv6.Lib.Run
import Xv6.Umalloc.Free

/-!
# `malloc` keeps the invariant

`malloc` goes once around the free list.  If no block is large enough it asks `sbrk` for memory,
puts that on the list with `free` and goes around again; then it finds a block.

* `Grants base log n a`: the memory at `a` is new.
* `mallocLoop_walk`: one way around the list.
* `malloc_ok`: `malloc` ends, and what it hands out has room for the request.
* `heap_invariant`: the state of the allocator after any calls of a program.
-/

namespace Xv6
namespace Umalloc

open Lib Function

/-- The `n` bytes at `a` are memory that was not granted before and is not `base`. -/
structure Grants (base : Nat) (log : List (Nat × Option Nat)) (n a : Nat) : Prop where
  pos : 0 < a
  top : a + n < 2 ^ 32
  off_base : a + n ≤ base ∨ base + 8 ≤ a
  fresh : ∀ m b, (m, some b) ∈ log → a + n ≤ b ∨ b + m ≤ a

/-- What `sbrk` grants is new memory, and does not end where `base` starts. -/
def Honest (base : Nat) (sbrk : Sbrk) : Prop :=
  ∀ log n a, sbrk log n = some a → Grants base log n a ∧ a + n ≠ base

variable {base b p n nunits : Nat} {sbrk : Sbrk} {F L : Finset Nat} {s s' : Heap}
  {log : List (Nat × Option Nat)}

theorem granted_cons_none : granted ((n, none) :: log) = granted log := by
  ext u
  constructor
  · rintro ⟨m, a, hmem, hu⟩
    rcases List.mem_cons.mp hmem with heq | hmem
    · cases heq
    · exact ⟨m, a, hmem, hu⟩
  · rintro ⟨m, a, hmem, hu⟩
    exact ⟨m, a, List.mem_cons_of_mem _ hmem, hu⟩

theorem granted_cons_some {a : Nat} :
    granted ((n, some a) :: log) = unitsOf 8 a (n / 8) ∪ granted log := by
  ext u
  constructor
  · rintro ⟨m, c, hmem, hu⟩
    rcases List.mem_cons.mp hmem with heq | hmem
    · cases heq
      exact .inl hu
    · exact .inr ⟨m, c, hmem, hu⟩
  · rintro (hu | ⟨m, c, hmem, hu⟩)
    · exact ⟨n, a, List.mem_cons_self, hu⟩
    · exact ⟨m, c, List.mem_cons_of_mem _ hmem, hu⟩

/-! ### `morecore` -/

/-- Granted memory is apart from all that was granted before. -/
theorem Grants.apart {a m : Nat} (h : Grants base log (8 * m) a) :
    ∀ u ∈ granted log, u + 8 ≤ a ∨ a + 8 * m ≤ u := by
  rintro u ⟨k, c, hmem, hu⟩
  have hin := le_of_mem_unitsOf hu
  have hfresh := h.fresh k c hmem
  omega

theorem Grants.legal {a m : Nat} (h : Grants base log (8 * m) a) (hend : a + 8 * m ≠ base) :
    ∀ u ∈ unitsOf 8 a m, Legal base u := by
  intro u hu
  have hin := le_of_mem_unitsOf hu
  have hpos := h.pos
  have htop := h.top
  have hoff := h.off_base
  unfold Legal
  omega

/-- The memory on the list after `morecore`: a block large enough for the request. -/
structure Stocked (base nunits : Nat) (L : Finset Nat) (s s' : Heap) : Prop where
  inv : ∃ F', s'.Inv base F' L ∧ ∃ q ∈ F', nunits ≤ s'.size q
  live : ∀ c ∈ L, s'.size c = s.size c

/-- No block lies at the null pointer. -/
theorem Heap.Inv.freep_ne (h : s.Inv base F L) (hpos : 0 < base) : s.freep ≠ 0 := by
  intro hzero
  by_cases hne : s.freep = base
  · omega
  · have := h.arena.bounds (Arena.mem_blocks_of_free h.freep hne)
    omega

/-- The number of bytes that `morecore` asks for. -/
def increment (nu : Nat) : Nat := (if nu < 4096 then 4096 else nu) * sizeofHeader % 2 ^ 32

/-- Where `sbrk` grants nothing, `morecore` returns 0 and leaves the list. -/
theorem morecore_none (hcall : sbrk s.log (increment nunits) = none) :
    morecore sbrk s nunits = some (0, { s with log := (increment nunits, none) :: s.log }) := by
  unfold increment at hcall
  unfold morecore
  dsimp only
  rw [hcall]
  rfl

/-- Where `sbrk` grants the memory, there is a block that is large enough. -/
theorem morecore_some (hbase : base + 8 ≤ 2 ^ 32) (hsbrk : Honest base sbrk)
    (h : s.Inv base F L) (hn : nunits < 2 ^ 28) {a : Nat}
    (hcall : sbrk s.log (increment nunits) = some a) :
    ∃ s', morecore sbrk s nunits = some (s'.freep, s') ∧ Stocked base nunits L s s' := by
  unfold increment at hcall
  generalize hnu : (if nunits < 4096 then 4096 else nunits) = nu at hcall
  have hbounds : 0 < nu ∧ nunits ≤ nu ∧ nu < 2 ^ 28 := by
    split at hnu
    · omega
    · omega
  have hbytes : nu * sizeofHeader % 2 ^ 32 = 8 * nu := by
    unfold sizeofHeader
    omega
  rw [hbytes] at hcall
  unfold morecore
  dsimp only
  rw [hnu, hbytes, hcall]
  obtain ⟨hgrants, hend⟩ := hsbrk _ _ _ hcall
  obtain ⟨hnew, harena⟩ := h.arena.obtain_memory hbounds.1 hgrants.apart (hgrants.legal hend)
  -- the new memory, as a block that is about to be freed
  have hinv : Heap.Inv base F (insert a L)
      (Heap.setSize { s with log := (8 * nu, some a) :: s.log } a nu) := by
    refine ⟨?_, h.freep⟩
    show Arena base F (insert a L) s.ptr (update s.size a nu)
      (granted ((8 * nu, some a) :: s.log))
    rw [granted_cons_some, Nat.mul_div_cancel_left _ (by decide)]
    exact harena
  obtain ⟨F', s', hfree, hinv', -, hlive, q, hq, hle⟩ :=
    free_ok hbase hinv (Finset.mem_insert_self a L)
  have htop := hgrants.top
  have hplus : plus a 1 = a + 8 := plus_eq (by omega)
  rw [Finset.erase_insert hnew] at hinv' hlive
  have hsize : (Heap.setSize { s with log := (8 * nu, some a) :: s.log } a nu).size a = nu :=
    update_self ..
  rw [hsize] at hle
  refine ⟨s', ?_, ⟨F', hinv', q, hq, by omega⟩, ?_⟩
  · dsimp only
    rw [hplus, hfree]
    rfl
  · intro c hc
    rw [hlive c hc]
    have hca : c ≠ a := fun heq => hnew (heq ▸ hc)
    exact update_of_ne hca ..

/-! ### A block is handed out -/

/-- The block `b` of `nunits` units was handed out. -/
structure Handed (base nunits b : Nat) (L : Finset Nat) (s s' : Heap) : Prop where
  fresh : b ∉ L
  inv : ∃ F', s'.Inv base F' (insert b L)
  size : s'.size b = nunits
  live : ∀ c ∈ L, s'.size c = s.size c

/-- `malloc` found a block that is large enough. -/
theorem carve_ok (h : s.Inv base F L) (hp : p ∈ F) (hpos : 0 < nunits)
    (hlarge : nunits ≤ s.size (s.ptr p)) :
    ∃ b s', carve s nunits p (s.ptr p) = (b + 8, s') ∧ Handed base nunits b L s s' := by
  have hqF := h.arena.wheel.closed p hp
  have hne : s.ptr p ≠ base := by
    intro heq
    rw [heq, h.arena.base_size] at hlarge
    omega
  have hbounds := h.arena.bounds (Arena.mem_blocks_of_free hqF hne)
  unfold carve
  by_cases hexact : s.size (s.ptr p) = nunits
  · rw [if_pos hexact, plus_eq (by omega), Nat.mul_one]
    refine ⟨s.ptr p, _, rfl, ?_, ⟨F.erase (s.ptr p), ?_, ?_⟩, hexact, fun c _ => rfl⟩
    · exact Finset.disjoint_left.mp h.arena.split hqF
    · exact h.arena.unlink hp hne
    · exact Finset.mem_erase.mpr ⟨(h.arena.next_ne_self hp hne).symm, hp⟩
  · rw [if_neg hexact]
    -- the tail of the block, above its first `m` units
    obtain ⟨m, hm⟩ : ∃ m, s.size (s.ptr p) = m + nunits := ⟨_, (Nat.sub_add_cancel hlarge).symm⟩
    have hmpos : 0 < m := by omega
    obtain ⟨hnew, harena⟩ := h.arena.cut hqF hne hm hmpos hpos
    rw [Finset.mem_union, not_or] at hnew
    have hrest : s.size (s.ptr p) - nunits = m := by omega
    have hsize : (s.setSize (s.ptr p) m).size (s.ptr p) = m := update_self ..
    have hplus : plus (s.ptr p) m = s.ptr p + 8 * m := plus_eq (by omega)
    have hplus' : plus (s.ptr p + 8 * m) 1 = s.ptr p + 8 * m + 8 := plus_eq (by omega)
    dsimp only
    rw [hrest, hsize, hplus, hplus']
    refine ⟨s.ptr p + 8 * m, _, rfl, hnew.2, ⟨F, harena, hp⟩, update_self .., ?_⟩
    intro c hc
    have hcn : c ≠ s.ptr p + 8 * m := fun heq => hnew.2 (heq ▸ hc)
    have hcq : c ≠ s.ptr p := fun heq => h.arena.live_not_free hc (heq ▸ hqF)
    show update (update s.size (s.ptr p) m) (s.ptr p + 8 * m) nunits c = s.size c
    rw [update_of_ne hcn, update_of_ne hcq]

/-! ### The search -/

/-- How many turns it takes from `p` to `freep`. -/
def turns (F : Finset Nat) (s : Heap) (p : Nat) : Nat :=
  if p = s.freep then 0 else (ahead F p s.freep).card + 1

/-- No block from `p` to `freep` is large enough. -/
structure TooSmall (F : Finset Nat) (s : Heap) (nunits p : Nat) : Prop where
  first : s.size p < nunits
  last : s.size s.freep < nunits
  between : p ≠ s.freep → ∀ q ∈ F, Between p q s.freep → s.size q < nunits

/-- The loop finds a block, or comes to `freep` and asks for memory. -/
theorem mallocLoop_walk (sbrk : Sbrk) (nunits : Nat) (hwheel : Wheel F s.ptr) (hfreep : s.freep ∈ F) :
    ∀ {fuel p : Nat}, p ∈ F → turns F s (s.ptr p) < fuel → (∃ q ∈ F, nunits ≤ s.size (s.ptr q) ∧
        mallocLoop sbrk nunits fuel p (s.ptr p) s = some (carve s nunits q (s.ptr q))) ∨
      (TooSmall F s nunits (s.ptr p) ∧ ∃ rest, fuel ≤ rest + 1 + turns F s (s.ptr p) ∧
        mallocLoop sbrk nunits fuel p (s.ptr p) s = (do
          let (r, s') ← morecore sbrk s nunits
          if r = 0 then some (0, s') else mallocLoop sbrk nunits rest r (s'.ptr r) s')) := by
  -- by induction on the fuel; a turn that finds nothing leaves fewer blocks before `freep`
  intro fuel
  induction fuel with
  | zero =>
    intro p _ hfuel
    exact absurd hfuel (Nat.not_lt_zero _)
  | succ fuel ih =>
    intro p hp hfuel
    have hq := hwheel.closed p hp
    rw [mallocLoop]
    by_cases hlarge : s.size (s.ptr p) ≥ nunits
    · rw [if_pos hlarge]
      exact .inl ⟨p, hp, hlarge, rfl⟩
    rw [if_neg hlarge]
    by_cases hlast : s.ptr p = s.freep
    · rw [if_pos hlast]
      right
      rw [hlast] at hlarge ⊢
      refine ⟨⟨Nat.lt_of_not_le hlarge, Nat.lt_of_not_le hlarge, fun hne => absurd rfl hne⟩, fuel,
        by omega, rfl⟩
    rw [if_neg hlast]
    have hpast := hwheel.gap _ hq _ hfreep
    have hless : turns F s (s.ptr (s.ptr p)) < turns F s (s.ptr p) := by
      unfold turns
      rw [if_neg hlast]
      by_cases hnext : s.ptr (s.ptr p) = s.freep
      · rw [if_pos hnext]
        omega
      · rw [if_neg hnext]
        have := hwheel.ahead_lt hq hnext hpast
        omega
    rcases ih hq (by omega) with hfound | ⟨hsmall, rest, hrest, hrun⟩
    · exact .inl hfound
    · refine .inr ⟨⟨Nat.lt_of_not_le hlarge, hsmall.last, ?_⟩, rest, by omega, hrun⟩
      intro _ q hqF hbetween
      by_cases hqn : q = s.ptr (s.ptr p)
      · rw [hqn]
        exact hsmall.first
      · have hgap := hwheel.gap _ hq q hqF
        apply hsmall.between
        · rintro heq
          rw [heq] at hgap
          exact hgap hbetween
        · exact hqF
        · unfold Between at *
          omega

/-- Around the whole list. -/
theorem TooSmall.all (h : TooSmall F s nunits (s.ptr s.freep)) (hwheel : Wheel F s.ptr)
    (hfreep : s.freep ∈ F) {q : Nat} (hq : q ∈ F) : s.size q < nunits := by
  by_cases hlast : q = s.freep
  · rw [hlast]
    exact h.last
  by_cases hfirst : q = s.ptr s.freep
  · rw [hfirst]
    exact h.first
  have hgap := hwheel.gap _ hfreep q hq
  apply h.between
  · intro hself
    exact hlast (hwheel.eq_of_next_self hfreep hself hq)
  · exact hq
  · unfold Between at *
    omega

theorem turns_le : turns F s p ≤ F.card + 1 := by
  have hle : (ahead F p s.freep).card ≤ F.card := ahead_card_le
  unfold turns
  split
  · omega
  · omega

/-! ### `malloc` -/

/-- What `malloc` comes to: nothing, or a block of `nunits` units. -/
def Served (base nunits : Nat) (L : Finset Nat) (s : Heap) : Option (Nat × Heap) → Prop
  | none => False
  | some (r, s') => (r = 0 ∧ (∃ F', s'.Inv base F' L) ∧ ∀ c ∈ L, s'.size c = s.size c) ∨
      ∃ b, r = b + 8 ∧ Handed base nunits b L s s'

theorem Served.of_carve (h : s.Inv base F L) (hp : p ∈ F) (hpos : 0 < nunits)
    (hlarge : nunits ≤ s.size (s.ptr p)) :
    Served base nunits L s (some (carve s nunits p (s.ptr p))) := by
  obtain ⟨b, s', hcarve, hhanded⟩ := carve_ok h hp hpos hlarge
  rw [hcarve]
  exact .inr ⟨b, rfl, hhanded⟩

/-- The loop from `freep` on: it finds a block, or there is none that is large enough. -/
theorem mallocLoop_first (sbrk : Sbrk) (nunits : Nat) (hbase : base + 8 ≤ 2 ^ 32) (h : s.Inv base F L) :
    (∃ q ∈ F, nunits ≤ s.size (s.ptr q) ∧ mallocLoop sbrk nunits loopFuel s.freep (s.ptr s.freep) s =
      some (carve s nunits q (s.ptr q))) ∨
    ((∀ q ∈ F, s.size q < nunits) ∧ ∃ rest, 2 ^ 33 ≤ rest ∧
      mallocLoop sbrk nunits loopFuel s.freep (s.ptr s.freep) s = (do
        let (r, s') ← morecore sbrk s nunits
        if r = 0 then some (0, s') else mallocLoop sbrk nunits rest r (s'.ptr r) s')) := by
  have hcard := h.arena.card_le hbase
  have hturns : turns F s (s.ptr s.freep) ≤ F.card + 1 := turns_le
  have hfuel : turns F s (s.ptr s.freep) < loopFuel := by
    unfold loopFuel
    omega
  rcases mallocLoop_walk sbrk nunits h.arena.wheel h.freep h.freep hfuel with
    hfound | ⟨hsmall, rest, hrest, hrun⟩
  · exact .inl hfound
  · refine .inr ⟨fun q hq => hsmall.all h.arena.wheel h.freep hq, rest, ?_, hrun⟩
    unfold loopFuel at hrest
    omega

/-- Once `sbrk` has granted memory, the loop finds a block. -/
theorem mallocLoop_granted (hpos : 0 < base) (hbase : base + 8 ≤ 2 ^ 32) (hsbrk : Honest base sbrk)
    (h : s.Inv base F L) (hn : 0 < nunits) (hn' : nunits < 2 ^ 28) {a rest : Nat}
    (hcall : sbrk s.log (increment nunits) = some a) (hrest : 2 ^ 33 ≤ rest) :
    ∃ b s', (do
        let (r, s') ← morecore sbrk s nunits
        if r = 0 then some (0, s') else mallocLoop sbrk nunits rest r (s'.ptr r) s') =
      some (b + 8, s') ∧ Handed base nunits b L s s' := by
  obtain ⟨s', hmore, ⟨F', hinv, q, hq, hlarge⟩, hlive⟩ := morecore_some hbase hsbrk h hn' hcall
  have hcard := hinv.arena.card_le hbase
  have hturns : turns F' s' (s'.ptr s'.freep) ≤ F'.card + 1 := turns_le
  rw [hmore]
  show ∃ b t, (if s'.freep = 0 then some (0, s') else
    mallocLoop sbrk nunits rest s'.freep (s'.ptr s'.freep) s') = some (b + 8, t) ∧ _
  rw [if_neg (hinv.freep_ne hpos)]
  rcases mallocLoop_walk sbrk nunits hinv.arena.wheel hinv.freep hinv.freep
    (show _ < rest by omega) with ⟨t, ht, hlarge', hrun⟩ | ⟨hsmall, -⟩
  · obtain ⟨b, s'', hcarve, hhanded⟩ := carve_ok hinv ht hn hlarge'
    rw [hrun, hcarve]
    refine ⟨b, s'', rfl, hhanded.fresh, hhanded.inv, hhanded.size, fun c hc => ?_⟩
    rw [hhanded.live c hc, hlive c hc]
  · have := hsmall.all hinv.arena.wheel hinv.freep hq
    omega

theorem mallocLoop_served (hpos : 0 < base) (hbase : base + 8 ≤ 2 ^ 32) (hsbrk : Honest base sbrk)
    (h : s.Inv base F L) (hn : 0 < nunits) (hn' : nunits < 2 ^ 28) :
    Served base nunits L s (mallocLoop sbrk nunits loopFuel s.freep (s.ptr s.freep) s) := by
  rcases mallocLoop_first sbrk nunits hbase h with ⟨q, hq, hlarge, hrun⟩ | ⟨-, rest, hrest, hrun⟩
  · rw [hrun]
    exact Served.of_carve h hq hn hlarge
  · rw [hrun]
    cases hcall : sbrk s.log (increment nunits) with
    | none =>
      rw [morecore_none hcall]
      refine .inl ⟨rfl, ⟨F, ?_, h.freep⟩, fun c _ => rfl⟩
      show Arena base F L s.ptr s.size (granted ((increment nunits, none) :: s.log))
      rw [granted_cons_none]
      exact h.arena
    | some a =>
      obtain ⟨b, s', hgot, hhanded⟩ := mallocLoop_granted hpos hbase hsbrk h hn hn' hcall hrest
      rw [hgot]
      exact .inr ⟨b, rfl, hhanded⟩

/-- The state of the allocator: the first `malloc` is still to come, or the invariant holds. -/
def Ready (base : Nat) (L : Finset Nat) (s : Heap) : Prop :=
  (s.freep = 0 ∧ L = ∅ ∧ granted s.log = ∅) ∨ ∃ F, s.Inv base F L

/-- `base` alone is a free list. -/
theorem Ready.start (hpos : 0 < base) (h : Ready base L s) :
    (∃ F, (s.start base).Inv base F L) ∧ ∀ c ∈ L, (s.start base).size c = s.size c := by
  unfold Heap.start
  rcases h with ⟨hzero, rfl, hnone⟩ | ⟨F, hinv⟩
  · rw [if_pos hzero]
    refine ⟨⟨{base}, ?_, Finset.mem_singleton_self base⟩, fun c hc => absurd hc (Finset.notMem_empty c)⟩
    have hblocks : blocks base {base} ∅ = ∅ := by
      unfold blocks
      simp
    constructor
    · exact Wheel.singleton (update_self ..)
    · exact Finset.mem_singleton_self base
    · exact update_self ..
    · exact Finset.disjoint_empty_right _
    · rw [hblocks]
      show Tiling 8 ∅ _ (granted s.log)
      rw [hnone]
      constructor
      · intro b hb
        exact absurd hb (Finset.notMem_empty b)
      · intro a ha
        exact absurd ha (Finset.notMem_empty a)
      · intro u
        constructor
        · intro hu
          exact absurd hu (Set.notMem_empty u)
        · rintro ⟨b, hb, -⟩
          exact absurd hb (Finset.notMem_empty b)
    · show ∀ u ∈ granted s.log, Legal base u
      rw [hnone]
      intro u hu
      exact absurd hu (Set.notMem_empty u)
    · intro p hp hne
      exact absurd (Finset.mem_singleton.mp hp) hne
  · rw [if_neg (hinv.freep_ne hpos)]
    exact ⟨⟨F, hinv⟩, fun c _ => rfl⟩

theorem unitsFor_bounds (h : n < 2 ^ 30) :
    0 < unitsFor n ∧ unitsFor n < 2 ^ 28 ∧ n ≤ 8 * (unitsFor n - 1) := by
  unfold unitsFor sizeofHeader
  omega

/-- `malloc` ends, and hands out nothing or a new block. -/
theorem malloc_ok (hpos : 0 < base) (hbase : base + 8 ≤ 2 ^ 32) (hsbrk : Honest base sbrk)
    (h : Ready base L s) (hn : n < 2 ^ 30) :
    Served base (unitsFor n) L s (malloc base sbrk s n) := by
  obtain ⟨hunits, hunits', -⟩ := unitsFor_bounds hn
  obtain ⟨⟨F, hinv⟩, hsize⟩ := h.start hpos
  have hserved := mallocLoop_served hpos hbase hsbrk hinv hunits hunits'
  unfold malloc
  dsimp only
  generalize mallocLoop sbrk (unitsFor n) loopFuel (s.start base).freep
    ((s.start base).ptr (s.start base).freep) (s.start base) = result at hserved ⊢
  cases result with
  | none => exact hserved
  | some result =>
    rcases hserved with ⟨hr, hinv', hlive⟩ | ⟨b, hr, hhanded⟩
    · exact .inl ⟨hr, hinv', fun c hc => (hlive c hc).trans (hsize c hc)⟩
    · exact .inr ⟨b, hr, hhanded.fresh, hhanded.inv, hhanded.size,
        fun c hc => (hhanded.live c hc).trans (hsize c hc)⟩

/-! ### Runs -/

/-- The free list of the world is `bs`. -/
structure FreeList (base : Nat) (w : World) (bs : List Nat) : Prop where
  increasing : bs.Pairwise (· < ·)
  /-- Every block points to the next one, and the last to the first. -/
  circular : ∀ i p, bs[i]? = some p → bs[(i + 1) % bs.length]? = some (w.heap.ptr p)
  start : w.heap.freep ∈ bs
  base_mem : base ∈ bs ∧ w.heap.size base = 0
  not_live : ∀ b ∈ bs, b ∉ w.live
  /-- No two blocks overlap, nor does a block overlap the header `base`. -/
  disjoint : ∀ a b, a ∈ bs ∨ a ∈ w.live → b ∈ bs ∨ b ∈ w.live → a < b →
    a + 8 * w.heap.size a ≤ b ∧ a + 8 ≤ b
  joined : ∀ a ∈ bs, a ≠ base → ∀ b ∈ bs, a + 8 * w.heap.size a ≠ b
  /-- Every unit that `sbrk` granted is in exactly one block. -/
  cover : ∀ u ∈ granted w.heap.log, ∃! b, (b ∈ bs ∨ b ∈ w.live) ∧ u ∈ unitsOf 8 b (w.heap.size b)
  /-- There are no other units. -/
  only : ∀ b, b ∈ bs ∨ b ∈ w.live → ∀ u ∈ unitsOf 8 b (w.heap.size b), u ∈ granted w.heap.log

/-- The wheel as a list. -/
theorem Heap.Inv.freeList {w : World} (h : w.heap.Inv base F w.live) :
    FreeList base w F.sort := by
  have hmem : ∀ b, b ∈ F.sort ↔ b ∈ F := fun b => Finset.mem_sort _
  have hblock : ∀ b, b ∈ F.sort ∨ b ∈ w.live → b = base ∨ b ∈ blocks base F w.live := by
    rintro b (hb | hb)
    · exact Arena.base_or_mem ((hmem b).mp hb)
    · exact .inr (Arena.mem_blocks_of_live hb)
  have hfrom : ∀ b, b ∈ blocks base F w.live → b ∈ F.sort ∨ b ∈ w.live := by
    intro b hb
    rcases Finset.mem_union.mp hb with hb | hb
    · exact .inl ((hmem b).mpr (Finset.mem_of_mem_erase hb))
    · exact .inr hb
  -- `base` has no units
  have hunits : ∀ b u, b ∈ F.sort ∨ b ∈ w.live → u ∈ unitsOf 8 b (w.heap.size b) →
      b ∈ blocks base F w.live := by
    intro b u hb hu
    rcases hblock b hb with rfl | hb
    · obtain ⟨j, hj, -⟩ := hu
      rw [h.arena.base_size] at hj
      exact absurd hj (Nat.not_lt_zero j)
    · exact hb
  constructor
  · exact (Finset.sortedLT_sort F).pairwise
  · intro i p hi
    exact h.arena.wheel.sorted hi
  · exact (hmem _).mpr h.freep
  · exact ⟨(hmem _).mpr h.arena.base_mem, h.arena.base_size⟩
  · intro b hb
    exact Finset.disjoint_left.mp h.arena.split ((hmem b).mp hb)
  · intro a b ha hb hlt
    rcases hblock a ha with rfl | ha
    · rcases hblock b hb with rfl | hb
      · exact absurd hlt (Nat.lt_irrefl _)
      · have := h.arena.bounds hb
        rw [h.arena.base_size]
        omega
    · have hbounds := h.arena.bounds ha
      have := h.arena.ends_before ha (hblock b hb) hlt
      omega
  · intro a ha hne b hb
    exact h.arena.joined a ((hmem a).mp ha) hne b ((hmem b).mp hb)
  · intro u hu
    obtain ⟨b, hb, hub⟩ := (h.arena.tiling.cover u).mp hu
    refine ⟨b, ⟨hfrom b hb, hub⟩, ?_⟩
    rintro c ⟨hc, huc⟩
    exact h.arena.tiling.unique (by decide) (hunits c u hc huc) hb huc hub
  · intro b hb u hu
    exact h.arena.tiling.mem_of_unit (hunits b u hb hu) hu

/-- One call of the program. -/
theorem Ready.step (hpos : 0 < base) (hbase : base + 8 ≤ 2 ^ 32) (hsbrk : Honest base sbrk)
    {w w' : World} {c : Call} (h : Ready base w.live w.heap) (hstep : w.step base sbrk c = some w') :
    Ready base w'.live w'.heap := by
  cases c with
  | malloc nbytes =>
    unfold World.step at hstep
    dsimp only at hstep
    split at hstep
    · rename_i hn
      have hserved := malloc_ok hpos hbase hsbrk h hn
      cases hrun : malloc base sbrk w.heap nbytes with
      | none =>
        rw [hrun] at hstep
        cases hstep
      | some result =>
        rw [hrun] at hserved hstep
        obtain ⟨r, s'⟩ := result
        cases hstep
        rcases hserved with ⟨rfl, hinv, -⟩ | ⟨b, rfl, hhanded⟩
        · exact .inr hinv
        · have hb : b + 8 - sizeofHeader = b := Nat.add_sub_cancel b 8
          show Ready base (if b + 8 = 0 then w.live else insert (b + 8 - sizeofHeader) w.live) s'
          rw [if_neg (by omega), hb]
          exact .inr hhanded.inv
    · cases hstep
  | free ap =>
    unfold World.step at hstep
    dsimp only at hstep
    split at hstep
    · rename_i hlive
      rcases h with ⟨-, hnone, -⟩ | ⟨F, hinv⟩
      · rw [hnone] at hlive
        exact absurd hlive.2 (Finset.notMem_empty _)
      · obtain ⟨F', s', hfree, hinv', -⟩ := free_ok hbase hinv hlive.2
        have hap : ap - sizeofHeader + 8 = ap := Nat.sub_add_cancel hlive.1
        rw [hap] at hfree
        rw [hfree] at hstep
        cases hstep
        exact .inr ⟨F', hinv'⟩
    · cases hstep

/-- The allocator after any calls of a program that frees only its live blocks, with an `sbrk` that
grants new memory which does not end where `base` starts.  The free list is circular, in increasing
order, joined, and with the live blocks it covers the memory; the next call ends, and what it hands
out has room for the request. -/
theorem heap_invariant (base : Nat) (sbrk : Sbrk) (hpos : 0 < base) (hbase : base + 8 ≤ 2 ^ 32)
    (hsbrk : Honest base sbrk) (s0 : Heap) (hfreep : s0.freep = 0) (hlog : s0.log = [])
    (calls : List Call) (w : World)
    (hrun : Run (fun w c w' => w.step base sbrk c = some w') ⟨s0, ∅⟩ calls w) :
    ((w.heap.freep = 0 ∧ w.live = ∅ ∧ granted w.heap.log = ∅) ∨ ∃ bs, FreeList base w bs) ∧
      (∀ nbytes, nbytes < 2 ^ 30 → ∃ r s', malloc base sbrk w.heap nbytes = some (r, s') ∧
        (r ≠ 0 → 8 ≤ r ∧ r - 8 ∉ w.live ∧ nbytes ≤ 8 * (s'.size (r - 8) - 1)) ∧
        ∀ b ∈ w.live, s'.size b = w.heap.size b) ∧
      ∀ b ∈ w.live, ∃ s', free w.heap (b + 8) = some s' ∧
        ∀ c ∈ w.live, c ≠ b → s'.size c = w.heap.size c := by
  have hready : Ready base w.live w.heap := by
    apply hrun.invariant (I := fun w => Ready base w.live w.heap)
    · refine .inl ⟨hfreep, rfl, ?_⟩
      ext u
      constructor
      · rintro ⟨n, a, hmem, -⟩
        rw [hlog] at hmem
        exact absurd hmem List.not_mem_nil
      · intro hu
        exact absurd hu (Set.notMem_empty u)
    · intro w c w' hw hstep
      exact hw.step hpos hbase hsbrk hstep
  refine ⟨?_, ?_, ?_⟩
  · rcases hready with hstart | ⟨F, hinv⟩
    · exact .inl hstart
    · exact .inr ⟨F.sort, hinv.freeList⟩
  · intro nbytes hn
    have hserved := malloc_ok hpos hbase hsbrk hready hn
    obtain ⟨-, -, hroom⟩ := unitsFor_bounds hn
    cases hmalloc : malloc base sbrk w.heap nbytes with
    | none =>
      rw [hmalloc] at hserved
      exact absurd hserved id
    | some result =>
      rw [hmalloc] at hserved
      obtain ⟨r, s'⟩ := result
      refine ⟨r, s', rfl, ?_⟩
      rcases hserved with ⟨rfl, -, hlive⟩ | ⟨b, rfl, hhanded⟩
      · exact ⟨fun hne => absurd rfl hne, hlive⟩
      · have hb : b + 8 - 8 = b := Nat.add_sub_cancel b 8
        rw [hb, hhanded.size]
        exact ⟨fun _ => ⟨Nat.le_add_left 8 b, hhanded.fresh, hroom⟩, hhanded.live⟩
  · intro b hb
    rcases hready with ⟨-, hnone, -⟩ | ⟨F, hinv⟩
    · rw [hnone] at hb
      exact absurd hb (Finset.notMem_empty b)
    · obtain ⟨F', s', hfree, -, -, hlive, -⟩ := free_ok hbase hinv hb
      exact ⟨s', hfree, fun c hc hcb => hlive c (Finset.mem_erase.mpr ⟨hcb, hc⟩)⟩

/-! ### Memory just below `base` -/

/-- The heap of a program that has just started. -/
def blank : Heap := ⟨fun _ => 0, fun _ => 0, 0, []⟩

/-- An `sbrk` that grants two regions of 4096 units, one after the other. -/
def twoGrants : Sbrk := fun log n =>
  if log = [] ∧ n = 0x8000 then some 0x10000
  else if log = [(0x8000, some 0x10000)] ∧ n = 0x8000 then some 0x18000
  else none

theorem twoGrants_grants (hbase : 0x20000 ≤ base ∨ base + 8 ≤ 0x10000) {a : Nat}
    (h : twoGrants log n = some a) : Grants base log n a ∧ 0x10000 ≤ a := by
  unfold twoGrants at h
  split at h
  · rename_i hfirst
    obtain ⟨rfl, rfl⟩ := hfirst
    cases h
    refine ⟨⟨by decide, by decide, by omega, ?_⟩, by decide⟩
    intro m b hmem
    exact absurd hmem List.not_mem_nil
  · split at h
    · rename_i hsecond
      obtain ⟨rfl, rfl⟩ := hsecond
      cases h
      refine ⟨⟨by decide, by decide, by omega, ?_⟩, by decide⟩
      intro m b hmem
      cases List.mem_singleton.mp hmem
      decide
    · cases h

/-- With the regions above `base`, two requests get the tail of the first one.  Then the upper
block is freed, and stays apart from the rest of the region. -/
theorem heap_invariant_above : Honest 0x1000 twoGrants ∧
    ∃ w, Run (fun w c w' => w.step 0x1000 twoGrants c = some w') ⟨blank, ∅⟩
        [.malloc 100, .malloc 200, .free 0x17f98] w ∧
      w.live = {0x17ec0} ∧ w.heap.size 0x17f90 = 14 ∧ ∃ bs, FreeList 0x1000 w bs := by
  have hbase : 0x20000 ≤ 0x1000 ∨ 0x1000 + 8 ≤ 0x10000 := by decide
  have hhonest : Honest 0x1000 twoGrants := by
    intro log n a h
    obtain ⟨hgrants, hlow⟩ := twoGrants_grants hbase h
    exact ⟨hgrants, by omega⟩
  have hcalls : (([.malloc 100, .malloc 200, .free 0x17f98] : List Call).foldlM
      (World.step 0x1000 twoGrants) ⟨blank, ∅⟩).any
      (fun w => w.live = {0x17ec0} ∧ w.heap.size 0x17f90 = 14 ∧ w.heap.freep ≠ 0) = true := by
    decide +kernel
  obtain ⟨w, hrun, hend⟩ := Run.exists_of_any (fun _ _ _ h => h) hcalls
  obtain ⟨hlive, hsize, hfreep⟩ := of_decide_eq_true hend
  have hall := heap_invariant 0x1000 twoGrants (by decide) (by decide) hhonest blank rfl rfl _ w hrun
  refine ⟨hhonest, w, hrun, hlive, hsize, hall.1.resolve_left ?_⟩
  rintro ⟨hzero, -⟩
  exact hfreep hzero

/-- With the second region ending at `base`, freeing both regions joins them with `base` and takes
it off the list.  A request for all of the memory is then served with the only block of the list,
which stays on it. -/
theorem heap_serves_free_block :
    (∀ log n a, twoGrants log n = some a → Grants 0x20000 log n a) ∧
    ∃ w, Run (fun w c w' => w.step 0x20000 twoGrants c = some w') ⟨blank, ∅⟩
        [.malloc 32760, .malloc 32760, .free 0x10008, .free 0x18008, .malloc 65528] w ∧
      w.heap.freep ∈ w.live ∧ ¬∃ bs, FreeList 0x20000 w bs := by
  have hcalls : (([.malloc 32760, .malloc 32760, .free 0x10008, .free 0x18008,
      .malloc 65528] : List Call).foldlM (World.step 0x20000 twoGrants) ⟨blank, ∅⟩).any
      (fun w => w.heap.freep ∈ w.live) = true := by
    decide +kernel
  obtain ⟨w, hrun, hend⟩ := Run.exists_of_any (fun _ _ _ h => h) hcalls
  have hlive : w.heap.freep ∈ w.live := of_decide_eq_true hend
  refine ⟨fun log n a h => (twoGrants_grants (.inl le_rfl) h).1, w, hrun, hlive, ?_⟩
  rintro ⟨bs, hlist⟩
  exact hlist.not_live _ hlist.start hlive

end Umalloc
end Xv6
