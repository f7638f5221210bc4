import Xv6.Vm.Safe

/-!
# A copy that is given back (`vm.c`)

`copyuvm` takes pages from the free list: the directory, its page tables and one page for each page
of the parent.  `freevm` finds the pages of the copy in one traversal and its tables in another.
`copyuvm_freevm` says that these are the pages that were taken, each once.
-/

namespace Xv6
namespace Vm

open Lib Lib.Exec

variable {M : Machine} {s s' : Kmem} {parent child d : PageDir}

/-- What has been made of a parent's user pages: a copy of each in a page of its own, which was free
and is so no longer. -/
structure Duplicate (parent child : PageDir) (s s' : Kmem) : Prop where
  mapped : ∀ u, u < userPages → (child.ent u).present = (parent.ent u).present
  flags : ∀ u, u < userPages → (parent.ent u).present = true →
    (child.ent u).flags = (parent.ent u).flags
  contents : ∀ u, u < userPages → (parent.ent u).present = true →
    s'.mem (child.ent u).ppn = s.mem (parent.ent u).ppn
  fresh : ∀ u, u < userPages → (parent.ent u).present = true →
    0 < s.free (child.ent u).ppn ∧ s'.free (child.ent u).ppn = 0
  distinct : Unshared child
  /-- Among the pages that keep their contents are those of the parent, its tables and its
  directory. -/
  kept : ∀ p, s.free p = 0 → s'.mem p = s.mem p

theorem Copied.duplicate (h : Copied M parent child s s') (hpool : Pool M s nothing) :
    Duplicate parent child s s' := by
  have hpool' : Pool M s' child.own := hpool.conserves h.conserves
  have hmapped : ∀ u, u < userPages → (child.ent u).present = (parent.ent u).present := by
    intro u hu
    cases hp : (parent.ent u).present with
    | false =>
      rw [h.absent u hu hp]
      rfl
    | true =>
      unfold Pte.present
      rw [(h.present u hu hp).1]
      exact hp
  refine ⟨hmapped, fun u hu hp => (h.present u hu hp).1, fun u hu hp => (h.present u hu hp).2.2, ?_,
    hpool'.unshared, fun p hp => h.conserves.frame p hp rfl⟩
  intro u hu hp
  exact ⟨(h.present u hu hp).2.1, hpool'.free_eq_zero hu ((hmapped u hu).trans hp)⟩

/-- A successful `copyuvm` makes a duplicate of the parent's user pages.  What it took from the free
list are the pages of the child, each once, and these are what `freevm` gives back. -/
theorem copyuvm_freevm (hpool : Pool M s nothing)
    (hused : ∀ u, u < userPages → (parent.ent u).present = true → s.free (parent.ent u).ppn = 0)
    (hcopy : copyuvm M parent s = .ok (some child, s')) :
    Duplicate parent child s s' ∧ (∀ p, child.own p ≤ 1 ∧ s'.free p + child.own p = s.free p) ∧
      ∃ s'', freevm M child s' = .ok ((), s'') ∧
        ∀ p, s''.free p = s'.free p + child.own p ∧ s''.free p = s.free p := by
  rcases copyuvm_ok hpool.free_le_one hused hcopy with ⟨_, ⟨⟩, hcopied⟩ | ⟨hnone, -⟩
  · have hpool' : Pool M s' child.own := hpool.conserves hcopied.conserves
    have htaken : ∀ p, s'.free p + child.own p = s.free p := hcopied.conserves.ledger
    refine ⟨hcopied.duplicate hpool, fun p => ⟨?_, htaken p⟩, ?_⟩
    · have := hpool'.once p
      omega
    · obtain ⟨⟨u, s''⟩, hfree⟩ := freevm_ends hpool'
      have hback : ∀ p, s''.free p + nothing p = s'.free p + child.own p := (freevm_ok hfree).ledger
      exact ⟨s'', hfree, fun p => ⟨hback p, (hback p).trans (htaken p)⟩⟩
  · cases hnone

/-! ## A parent with three pages -/

/-- A machine with a kernel of half a megabyte. -/
def board : Machine where
  dataPage := 0x104
  endPage := 0x180
  vramPage := 0xFC000
  vramPages := 0x200
  text_pos := by decide
  data_lt_end := by decide
  end_le := by decide
  vram_pos := by decide
  vram_fits := by decide
  vram_high := by decide
  vram_phys := by decide

/-- A directory with two tables: it maps page 0 for reading, and pages 1 and 1500. -/
def threePages : PageDir :=
  (((((PageDir.empty 0x301).addTable 0 0x302).addTable (1500 * PGSIZE) 0x303).setPte 0
    ⟨0x310, PTE_U ||| PTE_P⟩).setPte (1 * PGSIZE) ⟨0x311, PTE_W ||| PTE_U ||| PTE_P⟩).setPte
      (1500 * PGSIZE) ⟨0x312, PTE_W ||| PTE_U ||| PTE_P⟩

theorem threePages_ent {u : Nat} (hu : u < 2 ^ 20) :
    threePages.ent u = if u = 1500 then ⟨0x312, PTE_W ||| PTE_U ||| PTE_P⟩
      else if u = 1 then ⟨0x311, PTE_W ||| PTE_U ||| PTE_P⟩
      else if u = 0 then ⟨0x310, PTE_U ||| PTE_P⟩ else Pte.zero := by
  unfold threePages
  rw [PageDir.ent_setPte _ _ hu (by decide), PageDir.ent_setPte _ _ hu (by decide),
    PageDir.ent_setPte _ _ hu (by decide), PageDir.ent_addTable _ _ _ (by decide),
    PageDir.ent_addTable _ _ _ rfl]
  rfl

theorem threePages_mem {u : Nat} (hu : u < userPages) (hp : (threePages.ent u).present = true) :
    u ∈ ({0, 1, 1500} : Finset Nat) := by
  rw [threePages_ent (Nat.lt_trans hu (by decide))] at hp
  split_ifs at hp with h1 h2 h3
  · simp [h1]
  · simp [h2]
  · simp [h3]
  · cases hp

/-- Memory with a thousand free pages. -/
def thousand : Kmem := ⟨List.range' 0x400 1000, fun p _ => p.toUInt8⟩

theorem thousand_pool : Pool board thousand nothing := by
  constructor
  · intro p hp
    have hmem : p ∈ thousand.freelist := List.count_pos_iff.mp hp
    obtain ⟨i, hi, rfl⟩ := List.mem_range'.mp hmem
    constructor
    · show 0x180 ≤ _
      omega
    · show _ < 0x20000
      omega
  · intro p
    exact List.nodup_iff_count_le_one.mp List.nodup_range' p

/-- The pages of the parent are copied, and then all pages are free again. -/
theorem copyuvm_freevm_threePages : Pool board thousand nothing ∧ ∃ child s' s'',
    copyuvm board threePages thousand = .ok (some child, s') ∧
      (child.ent 0).flags = PTE_U ||| PTE_P ∧ s'.mem (child.ent 0).ppn = (fun _ => 0x10) ∧
      s'.mem (child.ent 1).ppn = (fun _ => 0x11) ∧ s'.mem (child.ent 1500).ppn = (fun _ => 0x12) ∧
      freevm board child s' = .ok ((), s'') ∧ ∀ p, s''.free p = thousand.free p := by
  have hlen : setupCost + 2 * ({0, 1, 1500} : Finset Nat).card ≤ thousand.freelist.length := by
    decide +kernel
  obtain ⟨child, s', hcopy⟩ := copyuvm_total (M := board)
    (fun u hu hp => threePages_mem hu hp) hlen
  have hused : ∀ u, u < userPages → (threePages.ent u).present = true →
      thousand.free (threePages.ent u).ppn = 0 := by
    intro u hu hp
    have hmem := threePages_mem hu hp
    simp only [Finset.mem_insert, Finset.mem_singleton] at hmem
    rcases hmem with rfl | rfl | rfl <;> decide +kernel
  obtain ⟨hdup, -, s'', hfree, hback⟩ := copyuvm_freevm thousand_pool hused hcopy
  exact ⟨thousand_pool, child, s', s'', hcopy, hdup.flags 0 (by decide) (by decide),
    hdup.contents 0 (by decide) (by decide), hdup.contents 1 (by decide) (by decide),
    hdup.contents 1500 (by decide) (by decide), hfree, fun p => (hback p).2⟩

end Vm
end Xv6
