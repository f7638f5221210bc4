import Xv6.Lib.Wheel
import Xv6.Lib.Tiling
import Xv6.Umalloc.Model

/-!
# Free and live blocks

The invariant of the allocator over the set `F` of the blocks on the free list and the set `L` of
the blocks that were handed out: the free list is a wheel in address order, the blocks other than
`base` tile the memory that came from `sbrk`, and no two free blocks meet.

`base` has size 0 and holds the free list together: it must never be joined with a block below
it.  This is why no memory may end where `base` starts (`Legal`).

* `Arena base F L ptr size U` is the invariant, for the units `U` of memory.
* `Arena.absorb`, `Arena.link` and `Arena.grow` are the three things that `free` does.
* `Arena.unlink` and `Arena.cut` are the two ways in which `malloc` hands out a block.
* `Arena.obtain_memory` adds memory.
-/

namespace Xv6
namespace Umalloc

open Lib Function

/-- A unit that the allocator can work with: not at either end of the address space, not on `base`
and not just below it. -/
def Legal (base u : Nat) : Prop := 0 < u ∧ u + 8 < 2 ^ 32 ∧ (u + 8 < base ∨ base + 8 ≤ u)

/-- The blocks other than `base`. -/
def blocks (base : Nat) (F L : Finset Nat) : Finset Nat := F.erase base ∪ L

/-- The free blocks `F` and the live blocks `L` make up the units `U`. -/
structure Arena (base : Nat) (F L : Finset Nat) (ptr size : Nat → Nat) (U : Set Nat) : Prop where
  wheel : Wheel F ptr
  base_mem : base ∈ F
  base_size : size base = 0
  split : Disjoint F L
  tiling : Tiling 8 (blocks base F L) size U
  legal : ∀ u ∈ U, Legal base u
  /-- Free blocks that meet are joined. -/
  joined : ∀ p ∈ F, p ≠ base → ∀ q ∈ F, p + 8 * size p ≠ q

variable {base b c p q n : Nat} {F L : Finset Nat} {ptr ptr' size size' : Nat → Nat} {U : Set Nat}

namespace Arena

theorem mem_blocks_of_free (hp : p ∈ F) (hne : p ≠ base) : p ∈ blocks base F L :=
  Finset.mem_union_left _ (Finset.mem_erase.mpr ⟨hne, hp⟩)

theorem mem_blocks_of_live (hb : b ∈ L) : b ∈ blocks base F L := Finset.mem_union_right _ hb

theorem live_ne_base (h : Arena base F L ptr size U) (hb : b ∈ L) : b ≠ base := by
  rintro rfl
  exact Finset.disjoint_left.mp h.split h.base_mem hb

theorem live_not_free (h : Arena base F L ptr size U) (hb : b ∈ L) : b ∉ F :=
  Finset.disjoint_right.mp h.split hb

theorem congr (h : Arena base F L ptr size U) (hptr : ∀ p ∈ F, ptr' p = ptr p)
    (hbase : size' base = 0) (hsize : ∀ b ∈ blocks base F L, size' b = size b) :
    Arena base F L ptr' size' U where
  wheel := h.wheel.congr hptr
  base_mem := h.base_mem
  base_size := hbase
  split := h.split
  tiling := h.tiling.congr hsize
  legal := h.legal
  joined p hp hne q hq := by
    rw [hsize p (mem_blocks_of_free hp hne)]
    exact h.joined p hp hne q hq

/-- Where a block lies. -/
theorem bounds (h : Arena base F L ptr size U) (hb : b ∈ blocks base F L) :
    0 < b ∧ b + 8 * size b < 2 ^ 32 ∧ 0 < size b ∧ (b + 8 * size b < base ∨ base + 8 ≤ b) := by
  have hpos := h.tiling.pos b hb
  have hunit : ∀ u ∈ unitsOf 8 b (size b), Legal base u :=
    fun u hu => h.legal u (h.tiling.mem_of_unit hb hu)
  have hfirst := hunit b (mem_unitsOf_start hpos)
  have hlast := hunit (b + 8 * (size b - 1)) ⟨size b - 1, by omega, rfl⟩
  unfold Legal at hfirst hlast
  refine ⟨hfirst.1, by omega, hpos, ?_⟩
  rcases Nat.lt_or_ge b (base + 8) with hlt | hge
  · left
    have hbelow : b + 8 * size b ≤ base - 1 := by
      apply unitsOf_below (by omega) hlt _ hpos
      intro u hu
      have hu := hunit u hu
      unfold Legal at hu
      omega
    omega
  · exact .inr hge

/-- A block ends before the next header, also before `base`. -/
theorem ends_before (h : Arena base F L ptr size U) (hb : b ∈ blocks base F L)
    (hc : c = base ∨ c ∈ blocks base F L) (hlt : b < c) : b + 8 * size b ≤ c := by
  rcases hc with rfl | hc
  · have := h.bounds hb
    omega
  · exact h.tiling.apart b hb c hc hlt

theorem base_or_mem (hp : p ∈ F) : p = base ∨ p ∈ blocks base F L := by
  by_cases hne : p = base
  · exact .inl hne
  · exact .inr (mem_blocks_of_free hp hne)

/-- No block ends at `base`. -/
theorem end_ne_base (h : Arena base F L ptr size U) (hb : b ∈ blocks base F L) :
    b + 8 * size b ≠ base := by
  have := h.bounds hb
  omega

section neighbours

variable (h : Arena base F L ptr size U) (hb : b ∈ L) (hp : p ∈ F) (hbetween : Between p b (ptr p))
include h hb hp hbetween

/-- The free block that a block ends at is the next one of the list. -/
theorem eq_next (hq : q ∈ F) (hmeet : b + 8 * size b = q) : q = ptr p := by
  have hbb : b ∈ blocks base F L := mem_blocks_of_live hb
  have hpos := h.tiling.pos b hbb
  have hgap := h.wheel.gap p hp q hq
  have hafter : b < ptr p → q ≤ ptr p := by
    intro hlt
    rw [← hmeet]
    exact h.ends_before hbb (base_or_mem (h.wheel.closed p hp)) hlt
  unfold Between at *
  omega

/-- The free block that ends at a block is the one before it in the list. -/
theorem eq_prev (hq : q ∈ F) (hne : q ≠ base) (hmeet : q + 8 * size q = b) : q = p := by
  have hqb : q ∈ blocks base F L := mem_blocks_of_free hq hne
  have hpos := h.tiling.pos q hqb
  have hgap := h.wheel.gap p hp q hq
  have hnext := h.wheel.gap q hq
  have hafter : q < p → b ≤ p := by
    intro hlt
    rw [← hmeet]
    exact h.ends_before hqb (base_or_mem hp) hlt
  have hbp : b ≠ p := fun heq => h.live_not_free hb (heq ▸ hp)
  unfold Between at *
  omega

end neighbours

/-- A list that is not `base` alone has another block behind every block. -/
theorem next_ne_self (h : Arena base F L ptr size U) (hp : p ∈ F) (hne : ptr p ≠ base) :
    ptr p ≠ p := by
  intro hself
  have hbase := h.wheel.eq_of_next_self hp hself h.base_mem
  exact hne (hself.trans hbase.symm)

/-! ### What `free` does -/

section release

variable (h : Arena base F L ptr size U) (hb : b ∈ L) (hp : p ∈ F) (hbetween : Between p b (ptr p))
include h hb hp hbetween

/-- The block takes in the free block above it. -/
theorem absorb (hmeet : b + 8 * size b = ptr p) :
    Arena base (F.erase (ptr p)) L (update ptr p (ptr (ptr p)))
      (update size b (size b + size (ptr p))) U ∧
    p ∈ F.erase (ptr p) ∧ Between p b (ptr (ptr p)) ∧
    b + 8 * (size b + size (ptr p)) ≠ ptr (ptr p) := by
  have hbb : b ∈ blocks base F L := mem_blocks_of_live hb
  have hnF := h.wheel.closed p hp
  have hnbase : ptr p ≠ base := by
    rw [← hmeet]
    exact h.end_ne_base hbb
  have hnp := h.next_ne_self hp hnbase
  have hnb : ptr p ∈ blocks base F L := mem_blocks_of_free hnF hnbase
  have hbF := h.live_not_free hb
  have hset : blocks base (F.erase (ptr p)) L = (blocks base F L).erase (ptr p) := by
    have hnL : ptr p ∉ L := Finset.disjoint_left.mp h.split hnF
    unfold blocks
    ext x
    simp only [Finset.mem_union, Finset.mem_erase]
    grind
  have hother : ∀ q ∈ F, update size b (size b + size (ptr p)) q = size q := by
    intro q hq
    have hqb : q ≠ b := fun heq => hbF (heq ▸ hq)
    exact update_of_ne hqb ..
  refine ⟨?_, Finset.mem_erase.mpr ⟨hnp.symm, hp⟩, ?_, ?_⟩
  · constructor
    · exact h.wheel.erase hp hnp
    · exact Finset.mem_erase.mpr ⟨hnbase.symm, h.base_mem⟩
    · rw [hother base h.base_mem]
      exact h.base_size
    · exact Finset.disjoint_of_subset_left (Finset.erase_subset _ _) h.split
    · rw [hset]
      exact h.tiling.join (by decide) hbb hnb hmeet
    · exact h.legal
    · intro q hq hne r hr
      rw [hother q (Finset.mem_of_mem_erase hq)]
      exact h.joined q (Finset.mem_of_mem_erase hq) hne r (Finset.mem_of_mem_erase hr)
  · have hgap := h.wheel.gap _ hnF p hp
    unfold Between at *
    omega
  · have hjoined := h.joined _ hnF hnbase _ (h.wheel.closed _ hnF)
    omega

/-- The block goes on the list, where no free block meets it. -/
theorem link (hfar : b + 8 * size b ≠ ptr p) (hnear : p + 8 * size p ≠ b) :
    Arena base (insert b F) (L.erase b) (update (update ptr b (ptr p)) p b)
      size U := by
  have hpos := h.tiling.pos b (mem_blocks_of_live hb)
  have hbF := h.live_not_free hb
  have hset : blocks base (insert b F) (L.erase b) = blocks base F L := by
    have hne := h.live_ne_base hb
    unfold blocks
    ext x
    simp only [Finset.mem_union, Finset.mem_erase, Finset.mem_insert]
    grind
  constructor
  · exact h.wheel.insert hp hbF hbetween
  · exact Finset.mem_insert_of_mem h.base_mem
  · exact h.base_size
  · rw [Finset.disjoint_insert_left]
    exact ⟨Finset.notMem_erase b L, Finset.disjoint_of_subset_right (Finset.erase_subset _ _) h.split⟩
  · rw [hset]
    exact h.tiling
  · exact h.legal
  · intro q hq hne r hr hmeet
    rcases Finset.mem_insert.mp hq with rfl | hqF
    · rcases Finset.mem_insert.mp hr with rfl | hrF
      · omega
      · exact hfar (hmeet.trans (h.eq_next hb hp hbetween hrF hmeet))
    · rcases Finset.mem_insert.mp hr with rfl | hrF
      · have hqp := h.eq_prev hb hp hbetween hqF hne hmeet
        rw [hqp] at hmeet
        exact hnear hmeet
      · exact h.joined q hqF hne r hrF hmeet

/-- The free block below takes in the block. -/
theorem grow (hfar : b + 8 * size b ≠ ptr p) (hmeet : p + 8 * size p = b) :
    Arena base F (L.erase b) ptr (update size p (size p + size b)) U := by
  have hbF := h.live_not_free hb
  have hpbase : p ≠ base := by
    rintro rfl
    rw [h.base_size] at hmeet
    exact h.live_ne_base hb hmeet.symm
  have hset : blocks base F (L.erase b) = (blocks base F L).erase b := by
    unfold blocks
    ext x
    simp only [Finset.mem_union, Finset.mem_erase]
    grind
  constructor
  · exact h.wheel
  · exact h.base_mem
  · rw [update_of_ne hpbase.symm]
    exact h.base_size
  · exact Finset.disjoint_of_subset_right (Finset.erase_subset _ _) h.split
  · rw [hset]
    exact h.tiling.join (by decide) (mem_blocks_of_free hp hpbase) (mem_blocks_of_live hb) hmeet
  · exact h.legal
  · intro q hq hne r hr hqr
    by_cases hqp : q = p
    · rw [hqp, update_self] at hqr
      have hbr : b + 8 * size b = r := by omega
      exact hfar (hbr.trans (h.eq_next hb hp hbetween hr hbr))
    · rw [update_of_ne hqp] at hqr
      exact h.joined q hq hne r hr hqr

end release

/-! ### What `malloc` does -/

/-- The block behind `p` is taken off the list. -/
theorem unlink (h : Arena base F L ptr size U) (hp : p ∈ F) (hne : ptr p ≠ base) :
    Arena base (F.erase (ptr p)) (insert (ptr p) L) (update ptr p (ptr (ptr p))) size
      U := by
  have hnF := h.wheel.closed p hp
  have hset : blocks base (F.erase (ptr p)) (insert (ptr p) L) = blocks base F L := by
    unfold blocks
    ext x
    simp only [Finset.mem_union, Finset.mem_erase, Finset.mem_insert]
    grind
  constructor
  · exact h.wheel.erase hp (h.next_ne_self hp hne)
  · exact Finset.mem_erase.mpr ⟨hne.symm, h.base_mem⟩
  · exact h.base_size
  · rw [Finset.disjoint_insert_right]
    exact ⟨Finset.notMem_erase _ F, Finset.disjoint_of_subset_left (Finset.erase_subset _ _) h.split⟩
  · rw [hset]
    exact h.tiling
  · exact h.legal
  · intro q hq hqb r hr
    exact h.joined q (Finset.mem_of_mem_erase hq) hqb r (Finset.mem_of_mem_erase hr)

/-- The tail of a free block is cut off. -/
theorem cut {m : Nat} (h : Arena base F L ptr size U) (hp : p ∈ F) (hne : p ≠ base)
    (hsize : size p = m + n) (hm : 0 < m) (hn : 0 < n) : p + 8 * m ∉ F ∪ L ∧
    Arena base F (insert (p + 8 * m) L) ptr
      (update (update size p m) (p + 8 * m) n) U := by
  have hpb : p ∈ blocks base F L := mem_blocks_of_free hp hne
  obtain ⟨hnew, htiling⟩ := h.tiling.split (by decide) hpb hsize hm hn
  have hbounds := h.bounds hpb
  have hbase : p + 8 * m ≠ base := by omega
  have hF : p + 8 * m ∉ F := fun hmem => hnew (mem_blocks_of_free hmem hbase)
  have hL : p + 8 * m ∉ L := fun hmem => hnew (mem_blocks_of_live hmem)
  refine ⟨?_, ?_⟩
  · rw [Finset.mem_union, not_or]
    exact ⟨hF, hL⟩
  have hset : blocks base F (insert (p + 8 * m) L) = insert (p + 8 * m) (blocks base F L) :=
    Finset.union_insert ..
  constructor
  · exact h.wheel
  · exact h.base_mem
  · rw [update_of_ne hbase.symm, update_of_ne hne.symm]
    exact h.base_size
  · rw [Finset.disjoint_insert_right]
    exact ⟨hF, h.split⟩
  · rw [hset]
    exact htiling
  · exact h.legal
  · intro q hq hqb r hr hmeet
    have hqn : q ≠ p + 8 * m := fun heq => hF (heq ▸ hq)
    rw [update_of_ne hqn] at hmeet
    by_cases hqp : q = p
    · rw [hqp, update_self] at hmeet
      exact hF (hmeet ▸ hr)
    · rw [update_of_ne hqp] at hmeet
      exact h.joined q hq hqb r hr hmeet

/-- New memory is first of all a live block. -/
theorem obtain_memory {a : Nat} (h : Arena base F L ptr size U) (hn : 0 < n)
    (hfree : ∀ u ∈ U, u + 8 ≤ a ∨ a + 8 * n ≤ u) (hlegal : ∀ u ∈ unitsOf 8 a n, Legal base u) :
    a ∉ L ∧ Arena base F (insert a L) ptr (update size a n) (unitsOf 8 a n ∪ U) := by
  obtain ⟨hnew, htiling⟩ := h.tiling.add (by omega) hfree
  have hstart := hlegal a (mem_unitsOf_start hn)
  have hbase : a ≠ base := by
    unfold Legal at hstart
    omega
  have hF : a ∉ F := fun hmem => hnew (mem_blocks_of_free hmem hbase)
  have hL : a ∉ L := fun hmem => hnew (mem_blocks_of_live hmem)
  have hset : blocks base F (insert a L) = insert a (blocks base F L) := Finset.union_insert ..
  refine ⟨hL, ?_⟩
  constructor
  · exact h.wheel
  · exact h.base_mem
  · rw [update_of_ne hbase.symm]
    exact h.base_size
  · rw [Finset.disjoint_insert_right]
    exact ⟨hF, h.split⟩
  · rw [hset]
    exact htiling
  · rintro u (hu | hu)
    · exact hlegal u hu
    · exact h.legal u hu
  · intro q hq hqb r hr
    have hqa : q ≠ a := fun heq => hF (heq ▸ hq)
    rw [update_of_ne hqa]
    exact h.joined q hq hqb r hr

end Arena

end Umalloc
end Xv6
