import Xv6.Proc.Sbrk

/-!
# Shrinking a process (`sysproc.c`, `vm.c`)

`sbrk` with a negative argument gives the pages above the new size back by `deallocuvm`,
which takes the page of the new size along.  `bytes_kept_iff` says when the bytes below the
new size survive this, and `shrink_exact` puts it together with what `deallocuvm` itself
does and with the failure of `allocuvm`, which uses it to roll back.
-/

namespace Xv6
namespace Proc

open Lib Lib.Exec Vm

/-- The value of a byte as user code reads it. -/
def Process.byte (p : Process) (s : Kmem) (x : Nat) : UInt8 :=
  match p.pgdir with
  | some d => d.byte s x
  | none => 0

variable {M : Machine} {k k' : Kernel} {i : Nat} {n : Int} {d d' : PageDir} {s s' : Kmem}

theorem process_byte {p : Process} (hdir : p.pgdir = some d) (x : Nat) :
    p.byte s x = d.byte s x := by
  rw [Process.byte, hdir]

theorem resize_byte (sz x : Nat) : ((resize k i s' d sz).proc i).byte s x = d.byte s x := by
  apply process_byte
  simp [resize]

/-- What a successful call with a smaller size has done. -/
theorem sysSbrk_shrunk {r : Int} (hdir : (k.proc i).pgdir = some d)
    (hsz : (k.proc i).sz ≤ KERNBASE) (hn : n < 0)
    (hlt : toUint ((k.proc i).sz + n) < (k.proc i).sz)
    (h : sysSbrk M i n k = .ok (r, k')) (hr : r ≠ -1) :
    ∃ d' s', k' = resize k i s' d' (toUint ((k.proc i).sz + n)) ∧
      Shrunk d d' (toUint ((k.proc i).sz + n) / PGSIZE)
        (span (k.proc i).sz (toUint ((k.proc i).sz + n))) k.kmem s' := by
  by_cases hframes : ∀ q ∈ d.frames (toUint ((k.proc i).sz + n) / PGSIZE)
      (span (k.proc i).sz (toUint ((k.proc i).sz + n))), M.InRange q
  · obtain ⟨d', s', hrun, hshrunk⟩ := deallocuvm_shrinks hlt hsz hframes
    rw [sysSbrk_shrink hdir hn hrun] at h
    split_ifs at h
    · cases h
      exact absurd rfl hr
    · cases h
      exact ⟨d', s', rfl, hshrunk⟩
  · rw [sysSbrk_error hdir hn (deallocuvm_panics hlt hsz hframes)] at h
    cases h

/-- After a successful call the bytes below the new size are what they were, unless it has
shrunk into a page with a byte that is not zero. -/
theorem bytes_kept_iff {r : Int} (hdir : (k.proc i).pgdir = some d) (hun : Unshared d)
    (hsz : (k.proc i).sz ≤ KERNBASE) (hw : Word n) (hn : n < 0)
    (h : sysSbrk M i n k = .ok (r, k')) (hr : r ≠ -1) :
    (∀ x, x < (k'.proc i).sz → (k'.proc i).byte k'.kmem x = (k.proc i).byte k.kmem x) ↔
      (k.proc i).sz ≤ toUint ((k.proc i).sz + n) ∨
        ∀ x, PGROUNDDOWN (toUint ((k.proc i).sz + n)) ≤ x → x < toUint ((k.proc i).sz + n) →
          (k.proc i).byte k.kmem x = 0 := by
  by_cases hneg : (k.proc i).sz + n < 0
  · -- the size wraps around, and nothing is released
    rw [sysSbrk_shrink hdir hn (deallocuvm_wraps hsz hw hneg)] at h
    refine iff_of_true ?_ (.inl (toUint_wraps hsz hw hneg).2)
    intro x _
    split_ifs at h
    · cases h
      exact absurd rfl hr
    · cases h
      rw [resize_byte, process_byte hdir]
      rfl
  · rw [Int.not_lt] at hneg
    have hnew := toUint_shrinks hsz hn hneg
    have hlt : toUint ((k.proc i).sz + n) < (k.proc i).sz := by omega
    obtain ⟨d', s', rfl, hshrunk⟩ := sysSbrk_shrunk hdir hsz hn hlt h hr
    have hsum := add_span hlt
    have htop : toUint ((k.proc i).sz + n) / PGSIZE +
        span (k.proc i).sz (toUint ((k.proc i).sz + n)) ≤ userPages := by
      rw [hsum]
      exact pagesTo_le hsz
    -- a byte of the page of the new size is gone
    have hgone : ∀ x, PGROUNDDOWN (toUint ((k.proc i).sz + n)) ≤ x →
        x < toUint ((k.proc i).sz + n) → d'.byte s' x = 0 := by
      intro x hlo hx
      apply hshrunk.byte_gone htop
      · exact (Nat.le_div_iff_mul_le (by decide)).mpr hlo
      · rw [hsum, lt_pagesTo]
        exact Nat.lt_of_le_of_lt (Nat.div_mul_le_self ..) (Nat.lt_trans hx hlt)
    simp only [resize_sz, resize_byte, process_byte hdir]
    constructor
    · intro hsame
      right
      intro x hlo hx
      rw [← hsame x hx]
      exact hgone x hlo hx
    · rintro (hge | hzero)
      · omega
      · intro x hx
        by_cases hbelow : x / PGSIZE < toUint ((k.proc i).sz + n) / PGSIZE
        · exact hshrunk.byte_below hun htop hbelow
        · have hlo : PGROUNDDOWN (toUint ((k.proc i).sz + n)) ≤ x :=
            (Nat.le_div_iff_mul_le (by decide)).mp (Nat.not_lt.mp hbelow)
          rw [hzero x hlo hx]
          exact hgone x hlo hx

/-- `deallocuvm` frees exactly the pages above the new size where no page is cut; after a
successful `sbrk` the bytes below the new size are what they were where the page that is cut
held zeros; and a failed `allocuvm` has taken the pages it found in its range along. -/
theorem shrink_exact (M : Machine) :
    (∀ d s oldsz newsz, newsz < oldsz → oldsz ≤ KERNBASE →
      (ExactDealloc M d oldsz newsz s ↔ Whole d newsz ∧ Freeable M d oldsz newsz)) ∧
    (∀ k k' i n r d, (k.proc i).pgdir = some d → Unshared d → (k.proc i).sz ≤ KERNBASE →
      Word n → n < 0 → sysSbrk M i n k = .ok (r, k') → r ≠ -1 →
      ((∀ x, x < (k'.proc i).sz → (k'.proc i).byte k'.kmem x = (k.proc i).byte k.kmem x) ↔
        (k.proc i).sz ≤ toUint ((k.proc i).sz + n) ∨
          ∀ x, PGROUNDDOWN (toUint ((k.proc i).sz + n)) ≤ x → x < toUint ((k.proc i).sz + n) →
            (k.proc i).byte k.kmem x = 0)) ∧
    ∀ d d' s s' oldsz newsz, newsz < KERNBASE → allocuvm M d oldsz newsz s = .ok ((d', 0), s') →
      ((∀ u, u < 2 ^ 20 → d'.mapping u = d.mapping u) ↔
        ∀ u, oldsz / PGSIZE ≤ u → u * PGSIZE < newsz → (d.ent u).present = false) :=
  ⟨fun _ _ _ _ hlt hold => exactDealloc_iff hlt hold,
    fun _ _ _ _ _ _ hdir hun hsz hw hn h hr => bytes_kept_iff hdir hun hsz hw hn h hr,
    fun _ _ _ _ _ _ hnew h => rollback_iff hnew h⟩

/-- `allocuvm` with no free page gives up at its first page. -/
theorem allocuvm_out_of_memory {oldsz newsz : Nat} {mem : Nat → Nat → UInt8}
    (hnew : newsz < KERNBASE) (hlt : PGROUNDUP oldsz < newsz) (hge : oldsz ≤ newsz)
    (hfree : deallocuvm M d newsz oldsz ⟨[], mem⟩ = .ok ((d', oldsz), s')) :
    allocuvm M d oldsz newsz ⟨[], mem⟩ = .ok ((d', 0), s') := by
  unfold allocuvm
  rw [if_neg (Nat.not_le.mpr hnew), if_neg (Nat.not_lt.mpr hge),
    show (2 : Nat) ^ 20 = 1048575 + 1 from rfl, allocLoop, if_pos hlt,
    bind_of_ok (show kalloc ⟨[], mem⟩ = .ok (none, ⟨[], mem⟩) from rfl)]
  exact bind_of_ok hfree

theorem progDir_ent {u : Nat} (hu : u < 2 ^ 20) : progDir.ent u =
    if u = 0 then ⟨0x300, PTE_W ||| PTE_U ||| PTE_P⟩ else Pte.zero := by
  unfold progDir
  rw [PageDir.ent_setPte _ _ hu rfl, PageDir.ent_addTable _ _ _ rfl]
  rfl

theorem progDir_absent {u : Nat} (hu : u < 2 ^ 20) (hne : u ≠ 0) :
    (progDir.ent u).present = false := by
  rw [progDir_ent hu, if_neg hne]
  rfl

theorem progDir_unshared : Unshared progDir := by
  -- only page 0 is present
  have hzero : ∀ u, u < userPages → (progDir.ent u).present = true → u = 0 := by
    intro u hu hp
    by_contra hne
    rw [progDir_absent (Nat.lt_trans hu (by decide)) hne] at hp
    cases hp
  intro u v hu hv hpu hpv _
  rw [hzero u hu hpu, hzero v hv hpv]

/-- The page of the program survives where the new size is a multiple of the page size. -/
theorem shrink_exact_aligned :
    ExactDealloc pc progDir 0x2000 0x1000 ⟨[], fun _ _ => 7⟩ ∧
    (∃ k', sysSbrk pc 0 (-0x1000) (lone 0x2000) = .ok (0x2000, k') ∧ ∀ x, x < (k'.proc 0).sz →
        (k'.proc 0).byte k'.kmem x = ((lone 0x2000).proc 0).byte (lone 0x2000).kmem x) ∧
    ∃ d' s', allocuvm pc progDir 0x1000 0x3000 ⟨[], fun _ _ => 7⟩ = .ok ((d', 0), s') ∧
      ∀ u, u < 2 ^ 20 → d'.mapping u = progDir.mapping u := by
  have hfree : Freeable pc progDir 0x2000 0x1000 := by
    intro u hlo hhi hp
    have hpages : u < pagesTo 0x2000 := lt_pagesTo.mpr hhi
    have hu : u < 2 ^ 20 := Nat.lt_trans hpages (by decide)
    have hne : u ≠ 0 := by
      rintro rfl
      exact absurd hlo (by decide)
    rw [progDir_absent hu hne] at hp
    cases hp
  obtain ⟨hdealloc, hsbrk, halloc⟩ := shrink_exact pc
  refine ⟨(hdealloc _ _ _ _ (by decide) (by decide)).mpr ⟨.inl rfl, hfree⟩, ?_, ?_⟩
  · obtain ⟨d', s', hrun, -⟩ := deallocuvm_shrinks (M := pc) (d := progDir)
      (s := (lone 0x2000).kmem) (show 0x1000 < 0x2000 by decide) (by decide) (by decide)
    have hcall : sysSbrk pc 0 (-0x1000) (lone 0x2000) =
        .ok (0x2000, resize (lone 0x2000) 0 s' d' 0x1000) :=
      (sysSbrk_shrink rfl (by decide) hrun).trans (if_neg (by decide))
    refine ⟨_, hcall, ?_⟩
    apply (hsbrk _ _ _ _ _ progDir rfl progDir_unshared (by decide) (by decide) (by decide) hcall
      (by decide)).mpr
    right
    intro x hlo hx
    exact absurd (hlo.trans_lt hx) (by decide)
  · obtain ⟨d', s', hrun, -⟩ := deallocuvm_shrinks (M := pc) (d := progDir)
      (s := ⟨[], fun _ _ => 7⟩) (show 0x1000 < 0x3000 by decide) (by decide) (by decide)
    have hcall := allocuvm_out_of_memory (show 0x3000 < KERNBASE by decide) (by decide) (by decide) hrun
    refine ⟨d', s', hcall, ?_⟩
    apply (halloc _ _ _ _ _ _ (by decide) hcall).mpr
    intro u hlo hhi
    have hpages : u < pagesTo 0x3000 := lt_pagesTo.mpr hhi
    have hne : u ≠ 0 := by
      rintro rfl
      exact absurd hlo (by decide)
    exact progDir_absent (Nat.lt_trans hpages (by decide)) hne

/-- Half a page is given back, and the other half is lost; so it is when growing from there
fails. -/
theorem shrink_loses :
    ¬ExactDealloc pc progDir 0x1000 0x800 ⟨[], fun _ _ => 7⟩ ∧
    (∃ k', sysSbrk pc 0 (-0x800) (lone 0x1000) = .ok (0x1000, k') ∧ (k'.proc 0).sz = 0x800 ∧
      (k'.proc 0).byte k'.kmem 0 ≠ ((lone 0x1000).proc 0).byte (lone 0x1000).kmem 0) ∧
    ∃ d' s', allocuvm pc progDir 0x800 0x2000 ⟨[], fun _ _ => 7⟩ = .ok ((d', 0), s') ∧
      d'.mapping 0 ≠ progDir.mapping 0 := by
  have hhalf : ¬Whole progDir 0x800 := by
    rintro (h | h)
    · exact absurd h (by decide)
    · exact absurd h (by decide)
  refine ⟨?_, ?_, ?_⟩
  · intro hexact
    exact hhalf ((exactDealloc_iff (by decide) (by decide)).mp hexact).1
  · obtain ⟨d', s', hrun, hshrunk⟩ := deallocuvm_shrinks (M := pc) (d := progDir)
      (s := (lone 0x1000).kmem) (show 0x800 < 0x1000 by decide) (by decide) (by decide)
    have hsbrk : sysSbrk pc 0 (-0x800) (lone 0x1000) =
        .ok (0x1000, resize (lone 0x1000) 0 s' d' 0x800) :=
      (sysSbrk_shrink rfl (by decide) hrun).trans (if_neg (by decide))
    refine ⟨_, hsbrk, resize_sz _, ?_⟩
    have hgone : d'.byte s' 0 = 0 := hshrunk.byte_gone (by decide) (by decide) (by decide)
    rw [resize_byte]
    show d'.byte s' 0 ≠ _
    rw [hgone]
    decide
  · obtain ⟨d', s', hrun, hshrunk⟩ := deallocuvm_shrinks (M := pc) (d := progDir)
      (s := ⟨[], fun _ _ => 7⟩) (show 0x800 < 0x2000 by decide) (by decide) (by decide)
    refine ⟨d', s', allocuvm_out_of_memory (by decide) (by decide) (by decide) hrun, ?_⟩
    have hent := hshrunk.ent 0 (by decide)
    rw [if_pos (by decide)] at hent
    rw [mapping_of_absent (by rw [hent]; rfl)]
    decide

end Proc
end Xv6
