import Xv6.Umalloc.Blocks

/-!
# `free` keeps the invariant

`free` looks for the place of the block in the free list, and joins it with the block above and
the block below where they meet.  The search ends because the list is a wheel: with every turn
there is one block less between the search and the place.

* `Heap.Inv base F L s`: the heap `s` has the free blocks `F` and the live blocks `L`.
* `free_ok`: `free` of a live block ends, and moves the block from `L` to the free list.
-/

namespace Xv6
namespace Umalloc

open Lib Function

/-- The units of the memory that `sbrk` has granted. -/
def granted (log : List (Nat × Option Nat)) : Set Nat :=
  { u | ∃ n a, (n, some a) ∈ log ∧ u ∈ unitsOf 8 a (n / 8) }

/-- The heap has the free blocks `F` and the live blocks `L`. -/
structure Heap.Inv (base : Nat) (F L : Finset Nat) (s : Heap) : Prop where
  arena : Arena base F L s.ptr s.size (granted s.log)
  freep : s.freep ∈ F

variable {base b p n : Nat} {F L : Finset Nat} {ptr size : Nat → Nat} {U : Set Nat} {s : Heap}

theorem plus_eq (h : p + 8 * n < 2 ^ 32) : plus p n = p + 8 * n := Nat.mod_eq_of_lt h

/-! ### The search -/

/-- The list is not longer than the address space. -/
theorem Arena.card_le (h : Arena base F L ptr size U) (hbase : base + 8 ≤ 2 ^ 32) :
    F.card ≤ 2 ^ 32 := by
  have hsub : F ⊆ Finset.range (2 ^ 32) := by
    intro p hp
    rw [Finset.mem_range]
    have hmem : p = base ∨ p ∈ blocks base F L := base_or_mem hp
    rcases hmem with heq | hmem
    · omega
    · have := h.bounds hmem
      omega
  have hcard := Finset.card_le_card hsub
  rw [Finset.card_range] at hcard
  exact hcard

/-- The loop of `free` comes to the place of the block. -/
theorem freeLoop_finds (hwheel : Wheel F s.ptr) (hb : b ∉ F) :
    ∀ {fuel p : Nat}, p ∈ F → (ahead F p b).card < fuel →
      ∃ r ∈ F, Between r b (s.ptr r) ∧ freeLoop s b fuel p = some r := by
  intro fuel
  induction fuel with
  | zero =>
    intro p _ hfuel
    exact absurd hfuel (Nat.not_lt_zero _)
  | succ fuel ih =>
    intro p hp hfuel
    rw [freeLoop]
    by_cases hup : b > p ∧ b < s.ptr p
    · rw [if_neg (not_not_intro hup)]
      exact ⟨p, hp, .inl hup, rfl⟩
    · rw [if_pos hup]
      by_cases hwrap : p ≥ s.ptr p ∧ (b > p ∨ b < s.ptr p)
      · rw [if_pos hwrap]
        exact ⟨p, hp, .inr hwrap, rfl⟩
      · rw [if_neg hwrap]
        have hpast : ¬Between p b (s.ptr p) := not_or.mpr ⟨hup, hwrap⟩
        have hnext : s.ptr p ≠ b := fun heq => hb (heq ▸ hwheel.closed p hp)
        have hless := hwheel.ahead_lt hp hnext hpast
        exact ih (hwheel.closed p hp) (by omega)

/-! ### The two joins -/

/-- What `free` leaves: the block is free, alone or as a part of a larger one. -/
structure Freed (base b p : Nat) (L : Finset Nat) (size : Nat → Nat) (U : Set Nat) (s' : Heap) :
    Prop where
  arena : ∃ F', Arena base F' (L.erase b) s'.ptr s'.size U ∧ p ∈ F' ∧ ∃ q ∈ F', size b ≤ s'.size q
  live : ∀ c ∈ L.erase b, s'.size c = size c

/-- A free block ends inside the address space. -/
theorem Arena.free_end (h : Arena base F L ptr size U) (hbase : base + 8 ≤ 2 ^ 32) (hp : p ∈ F) :
    p + 8 * size p < 2 ^ 32 := by
  by_cases hne : p = base
  · rw [hne, h.base_size]
    omega
  · exact (h.bounds (mem_blocks_of_free hp hne)).2.1

/-- The second half of `free`: `p` points to the block, or takes it in.  In `ptr` and `size` the
list is without the block, and `p` points past it. -/
theorem joinLower_freed (hbase : base + 8 ≤ 2 ^ 32) (h : Arena base F L ptr size U) (hb : b ∈ L)
    (hp : p ∈ F) (hbetween : Between p b (ptr p)) (hfar : b + 8 * size b ≠ ptr p)
    (hptr : ∀ q ∈ F, q ≠ p → s.ptr q = ptr q) (hnext : s.ptr b = ptr p)
    (hsize : ∀ c, c = base ∨ c ∈ blocks base F L → s.size c = size c) :
    Freed base b p L size U (joinLower s b p) := by
  have hbb : b ∈ blocks base F L := Arena.mem_blocks_of_live hb
  have hbF := h.live_not_free hb
  have hpb : p ≠ b := fun heq => hbF (heq ▸ hp)
  have hsizeb := hsize b (.inr hbb)
  have hsizep := hsize p (Arena.base_or_mem hp)
  unfold joinLower
  rw [hsizep, hsizeb, hnext, plus_eq (h.free_end hbase hp)]
  by_cases hmeet : p + 8 * size p = b
  · rw [if_pos hmeet]
    have hgrown := h.grow hb hp hbetween hfar hmeet
    have hpend := hgrown.free_end hbase hp
    rw [update_self] at hpend
    have hsum : (size p + size b) % 2 ^ 32 = size p + size b := Nat.mod_eq_of_lt (by omega)
    have hnew : ∀ c, c = base ∨ c ∈ blocks base F L →
        update s.size p ((size p + size b) % 2 ^ 32) c =
          update size p (size p + size b) c := by
      intro c hc
      rw [hsum]
      by_cases hcp : c = p
      · rw [hcp, update_self, update_self]
      · rw [update_of_ne hcp, update_of_ne hcp]
        exact hsize c hc
    constructor
    · refine ⟨F, hgrown.congr ?_ ?_ ?_, hp, p, hp, ?_⟩
      · intro q hq
        show update s.ptr p (ptr p) q = ptr q
        by_cases hqp : q = p
        · rw [hqp, update_self]
        · rw [update_of_ne hqp]
          exact hptr q hq hqp
      · exact (hnew base (.inl rfl)).trans hgrown.base_size
      · intro c hc
        apply hnew c
        rcases Finset.mem_union.mp hc with hcF | hcL
        · exact .inr (Finset.mem_union_left _ hcF)
        · exact .inr (Finset.mem_union_right _ (Finset.mem_of_mem_erase hcL))
      · show size b ≤ update s.size p ((size p + size b) % 2 ^ 32) p
        rw [update_self, hsum]
        omega
    · intro c hc
      have hcL : c ∈ L := Finset.mem_of_mem_erase hc
      have hcp : c ≠ p := fun heq => h.live_not_free hcL (heq ▸ hp)
      show update s.size p ((size p + size b) % 2 ^ 32) c = size c
      rw [update_of_ne hcp]
      exact hsize c (.inr (Arena.mem_blocks_of_live hcL))
  · rw [if_neg hmeet]
    have hlinked := h.link hb hp hbetween hfar hmeet
    have hset : ∀ c, c = base ∨ c ∈ blocks base (insert b F) (L.erase b) →
        s.size c = size c := by
      intro c hc
      apply hsize c
      unfold blocks at *
      simp only [Finset.mem_union, Finset.mem_erase, Finset.mem_insert] at *
      grind
    constructor
    · refine ⟨insert b F, hlinked.congr ?_ ?_ ?_, Finset.mem_insert_of_mem hp, b,
        Finset.mem_insert_self _ _, hsizeb.symm.le⟩
      · intro q hq
        show update s.ptr p b q = update (update ptr b (ptr p)) p b q
        by_cases hqp : q = p
        · rw [hqp, update_self, update_self]
        · rw [update_of_ne hqp, update_of_ne hqp]
          rcases Finset.mem_insert.mp hq with rfl | hqF
          · rw [update_self]
            exact hnext
          · have hqb : q ≠ b := fun heq => hbF (heq ▸ hqF)
            rw [update_of_ne hqb]
            exact hptr q hqF hqp
      · exact (hset base (.inl rfl)).trans h.base_size
      · exact fun c hc => hset c (.inr hc)
    · intro c hc
      exact hsize c (.inr (Arena.mem_blocks_of_live (Finset.mem_of_mem_erase hc)))

/-- Both halves, at the place of the block. -/
theorem joins_freed (hbase : base + 8 ≤ 2 ^ 32) (h : Arena base F L s.ptr s.size U) (hb : b ∈ L)
    (hp : p ∈ F) (hbetween : Between p b (s.ptr p)) :
    Freed base b p L s.size U (joinLower (joinUpper s b p) b p) := by
  have hbb : b ∈ blocks base F L := Arena.mem_blocks_of_live hb
  have hbF := h.live_not_free hb
  have hpb : p ≠ b := fun heq => hbF (heq ▸ hp)
  have hqb : ∀ q ∈ F, q ≠ b := fun q hq heq => hbF (heq ▸ hq)
  have hbend := h.bounds hbb
  unfold joinUpper
  rw [plus_eq hbend.2.1]
  by_cases hmeet : b + 8 * s.size b = s.ptr p
  · rw [if_pos hmeet]
    obtain ⟨harena, hpF, hbetween', hfar⟩ := h.absorb hb hp hbetween hmeet
    have hbend' := (harena.bounds (Arena.mem_blocks_of_live hb)).2.1
    rw [update_self] at hbend'
    have hsum : (s.size b + s.size (s.ptr p)) % 2 ^ 32 = s.size b + s.size (s.ptr p) :=
      Nat.mod_eq_of_lt (by omega)
    rw [hsum]
    have hfreed := joinLower_freed
      (s := (s.setSize b (s.size b + s.size (s.ptr p))).setPtr b (s.ptr (s.ptr p)))
      hbase harena hb hpF
      (by rw [update_self]; exact hbetween')
      (by rw [update_self, update_self]; exact hfar)
      (fun q hq hqp => by
        show update s.ptr b _ q = update s.ptr p _ q
        rw [update_of_ne hqp, update_of_ne (hqb q (Finset.mem_of_mem_erase hq))])
      (by
        show update s.ptr b _ b = update s.ptr p _ p
        rw [update_self, update_self])
      (fun c _ => rfl)
    obtain ⟨F', harena', hpF', q, hq, hle⟩ := hfreed.arena
    rw [update_self] at hle
    refine ⟨⟨F', harena', hpF', q, hq, by omega⟩, ?_⟩
    intro c hc
    rw [hfreed.live c hc, update_of_ne (Finset.ne_of_mem_erase hc)]
  · rw [if_neg hmeet]
    refine joinLower_freed hbase h hb hp hbetween hmeet ?_ ?_ (fun c _ => rfl)
    · intro q hq _
      exact update_of_ne (hqb q hq) ..
    · exact update_self ..

/-- `free` of a live block ends, and the block is free. -/
theorem free_ok (hbase : base + 8 ≤ 2 ^ 32) (h : s.Inv base F L) (hb : b ∈ L) :
    ∃ F' s', free s (b + 8) = some s' ∧ s'.Inv base F' (L.erase b) ∧ s'.log = s.log ∧
      (∀ c ∈ L.erase b, s'.size c = s.size c) ∧ ∃ q ∈ F', s.size b ≤ s'.size q := by
  have hbb : b ∈ blocks base F L := Arena.mem_blocks_of_live hb
  have hbounds := h.arena.bounds hbb
  have hcard := h.arena.card_le hbase
  have hahead : (ahead F s.freep b).card ≤ F.card := ahead_card_le
  have hfuel : (ahead F s.freep b).card < loopFuel := by
    unfold loopFuel
    omega
  obtain ⟨p, hp, hbetween, hfind⟩ := freeLoop_finds h.arena.wheel (h.arena.live_not_free hb)
    h.freep hfuel
  obtain ⟨⟨F', harena, hpF, q, hq, hle⟩, hlive⟩ :=
    joins_freed hbase h.arena hb hp hbetween
  have hbp : (b + 8 + 2 ^ 32 - sizeofHeader) % 2 ^ 32 = b := by
    unfold sizeofHeader
    omega
  have hlog : (joinLower (joinUpper s b p) b p).log = s.log := by
    unfold joinLower joinUpper Heap.setPtr Heap.setSize
    split_ifs
    · rfl
    · rfl
    · rfl
    · rfl
  refine ⟨F', { joinLower (joinUpper s b p) b p with freep := p }, ?_, ⟨?_, hpF⟩, hlog, hlive, q,
    hq, hle⟩
  · unfold free
    dsimp only
    rw [hbp, hfind]
    rfl
  · show Arena base F' (L.erase b) _ _ (granted (joinLower (joinUpper s b p) b p).log)
    rw [hlog]
    exact harena

end Umalloc
end Xv6
