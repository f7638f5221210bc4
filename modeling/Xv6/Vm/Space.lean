import Xv6.Vm.Conserve

/-!
# Building and tearing down address spaces

For each function of `vm.c` that builds or releases part of an address space,
this module states which entries it changes and how pages change hands.

Every directory made by `setupkvm` has the same kernel half, `kernelEnt`.  It is
what decides the fate of a `deallocuvm` whose range reaches above `KERNBASE`: the
pages of the direct mapping behind the end of the kernel are pages `kfree`
accepts, every other kernel page makes `kfree` panic.
-/

namespace Xv6
namespace Vm

open Lib Lib.Exec

/-! ## The kernel half -/

/-- The kernel's mappings by virtual page; zero below `KERNBASE` and in the gaps. -/
def kernelEnt (M : Machine) (v : Nat) : Pte :=
  if v < 0x80000 then Pte.zero
  else if v < 0x80100 then ⟨v - 0x80000, PTE_W ||| PTE_P⟩
  else if v < 0x80000 + M.dataPage then ⟨v - 0x80000, 0 ||| PTE_P⟩
  else if v < 0xA0000 then ⟨v - 0x80000, PTE_W ||| PTE_P⟩
  else if v < 0xC0000 then Pte.zero
  else if v < 0xD0000 then ⟨v - 0x40000, PTE_W ||| PTE_P⟩
  else if v < 0xFE000 - M.vramPages then Pte.zero
  else if v < 0xFE000 then ⟨M.vramPage + (v - (0xFE000 - M.vramPages)), PTE_W ||| PTE_P⟩
  else ⟨v, PTE_W ||| PTE_P⟩

/-- The directory maps the kernel as `setupkvm` does. -/
def KernelHalf (M : Machine) (d : PageDir) : Prop :=
  ∀ v, userPages ≤ v → v < 2 ^ 20 → d.ent v = kernelEnt M v

/-- The virtual pages of the direct mapping whose physical pages `kfree` accepts. -/
def Direct (M : Machine) (v : Nat) : Prop := 0x80000 + M.endPage ≤ v ∧ v < 0xA0000

theorem Machine.bounds (M : Machine) :
    0x100 < M.dataPage ∧ M.dataPage < M.endPage ∧ M.endPage ≤ 0x400 ∧ 0 < M.vramPages ∧
      0xD0000 + M.vramPages ≤ 0xFE000 ∧ 0x20000 ≤ M.vramPage ∧
      M.vramPage + M.vramPages ≤ 2 ^ 20 :=
  ⟨M.text_pos, M.data_lt_end, M.end_le, M.vram_pos, M.vram_fits, M.vram_high, M.vram_phys⟩

variable {oldsz v : Nat}

/-- A kernel entry outside the direct mapping of free memory is never accepted by
`kfree`. -/
theorem kernelEnt_not_inRange (M : Machine) (hv : userPages ≤ v) (hv' : v < 2 ^ 20)
    (hd : ¬ Direct M v) (hp : (kernelEnt M v).present = true) :
    ¬ M.InRange (kernelEnt M v).ppn := by
  obtain ⟨h1, h2, h3, h4, h5, h6, h7⟩ := Machine.bounds M
  have hr : ∀ p, M.InRange p → M.endPage ≤ p ∧ p < 0x20000 := fun p hp => hp
  intro hin
  have hin := hr _ hin
  simp only [userPages, Direct] at hv hd
  unfold kernelEnt at hp hin
  split_ifs at hp hin <;>
    first
      | (dsimp only at hin; omega)
      | simp at hp

/-- After a gap in the kernel half comes neither the wrap-around nor the direct
mapping. -/
theorem kernelEnt_gap (M : Machine) (hv : userPages ≤ v) (hv' : v < 2 ^ 20)
    (hp : (kernelEnt M v).present = false) : v + 1 < 2 ^ 20 ∧ ¬ Direct M (v + 1) := by
  obtain ⟨h1, h2, h3, h4, h5, h6, h7⟩ := Machine.bounds M
  have hpW : ∀ p, (Pte.mk p (PTE_W ||| PTE_P)).present = true := fun p => Pte.present_or_P p _
  simp only [userPages, Direct] at *
  unfold kernelEnt at hp
  split_ifs at hp <;>
    first
      | omega
      | simp [hpW] at hp

/-- User code cannot use the kernel's mappings. -/
theorem kernelEnt_not_user (M : Machine) (v : Nat) : (kernelEnt M v).user = false := by
  unfold kernelEnt
  split_ifs <;> simp [Pte.user, Pte.zero, PTE_W, PTE_P, PTE_U]

theorem kernelEnt_user (M : Machine) (hv : v < userPages) :
    kernelEnt M v = Pte.zero := if_pos hv

variable {M : Machine} {s s' : Kmem}

/-! ## `deallocuvm` -/

variable {d d' : PageDir}

/-- One turn of the loop either finds nothing or frees the page and clears the
entry. -/
theorem deallocPage_ok (hv : v < 2 ^ 20) (h : deallocPage M d (v * PGSIZE) s = .ok (d', s')) :
    ((d.ent v).present = false ∧ d' = d ∧ s' = s) ∨
      ((d.ent v).present = true ∧ M.InRange (d.ent v).ppn ∧ kfree M (d.ent v).ppn s = .ok ((), s') ∧
        (d.pde (PDX (v * PGSIZE))).isSome ∧ d' = d.setPte (v * PGSIZE) Pte.zero) := by
  have hvpn : vpn (v * PGSIZE) = v := vpn_mul_PGSIZE hv
  have hpte : d.pte (v * PGSIZE) = d.ent v := by rw [PageDir.pte_eq_ent, hvpn]
  unfold deallocPage at h
  rw [bind_of_ok (walkpgdir_noalloc d (v * PGSIZE) s)] at h
  cases hpde : d.pde (PDX (v * PGSIZE)) with
  | none =>
    simp only [hpde, Option.isSome_none, Bool.false_eq_true, if_false] at h
    cases h
    left
    exact ⟨by rw [← hpte]; exact not_present_of_pde_none hpde, rfl, rfl⟩
  | some t =>
    simp only [hpde, Option.isSome_some, if_true, hpte] at h
    cases hp : (d.ent v).present with
    | false =>
      simp only [hp, Bool.false_eq_true, if_false] at h
      cases h
      exact .inl ⟨rfl, rfl, rfl⟩
    | true =>
      simp only [hp, if_true] at h
      by_cases h0 : (d.ent v).ppn = 0
      · rw [if_pos h0] at h
        cases h
      · rw [if_neg h0] at h
        obtain ⟨u, t', hfree, h⟩ := bind_eq_ok.mp h
        cases h
        exact .inr ⟨rfl, (kfree_ok hfree).1, hfree, by simp, rfl⟩

/-- What releasing the pages from `v` up to `oldsz` did. -/
structure Released (d d' : PageDir) (v oldsz : Nat) (s s' : Kmem) : Prop where
  page : d'.page = d.page
  ent : ∀ u, u < 2 ^ 20 → d'.ent u =
    if v ≤ u ∧ u * PGSIZE < oldsz ∧ (d.ent u).present = true then Pte.zero else d.ent u
  user : ∀ u, v ≤ u → u < 2 ^ 20 → u * PGSIZE < oldsz → (d.ent u).present = true → u < userPages
  conserves : Conserves s s' d.own d'.own

/-- The ranges `deallocuvm` can be given without freeing a page the directory
does not own: below `KERNBASE`, or not starting in the direct mapping of free
memory. -/
def DeallocSafe (M : Machine) (d : PageDir) (v oldsz : Nat) : Prop :=
  oldsz ≤ KERNBASE ∨ (KernelHalf M d ∧ ¬ Direct M v)

/-- Under `DeallocSafe` a present entry whose page `kfree` accepted is a user
entry. -/
theorem DeallocSafe.user (h : DeallocSafe M d v oldsz)
    (hv : v < 2 ^ 20) (hlt : v * PGSIZE < oldsz) (hp : (d.ent v).present = true)
    (hr : M.InRange (d.ent v).ppn) : v < userPages := by
  by_contra hge
  rcases h with hle | ⟨hk, hd⟩
  · simp only [PGSIZE, KERNBASE, userPages] at *
    omega
  · rw [hk v (by omega) hv] at hp hr
    exact kernelEnt_not_inRange M (by omega) hv hd hp hr

/-- If nothing is mapped at `v`, the next page is visited without wrapping. -/
theorem DeallocSafe.next (h : DeallocSafe M d v oldsz) (hv : v < 2 ^ 20) (hlt : v * PGSIZE < oldsz)
    (huser : userPages ≤ v → (d.ent v).present = false) :
    v + 1 < 2 ^ 20 ∧ DeallocSafe M d (v + 1) oldsz := by
  have hend := (Machine.bounds M).2.1
  by_cases hge : userPages ≤ v
  · rcases h with hle | ⟨hk, hd⟩
    · simp only [PGSIZE, KERNBASE, userPages] at *
      omega
    · have habs := huser hge
      rw [hk v hge hv] at habs
      have hgap := kernelEnt_gap M hge hv habs
      exact ⟨hgap.1, .inr ⟨hk, hgap.2⟩⟩
  · simp only [userPages] at hge
    refine ⟨by omega, ?_⟩
    rcases h with hle | ⟨hk, hd⟩
    · exact .inl hle
    · refine .inr ⟨hk, ?_⟩
      simp only [Direct]
      omega

theorem deallocLoop_ok :
    ∀ {fuel v : Nat} {d : PageDir} {s : Kmem}, v < 2 ^ 20 → oldsz ≤ 2 ^ 32 →
      DeallocSafe M d v oldsz →
      deallocLoop M oldsz fuel d (v * PGSIZE) s = .ok (d', s') →
      Released d d' v oldsz s s' := by
  -- by induction on the fuel: one page is handled, the rest starts one page higher
  intro fuel
  induction fuel with
  | zero =>
    intro v d s _ _ _ h
    cases h
  | succ fuel ih =>
    intro v d s hv hold hsafe h
    unfold deallocLoop at h
    by_cases hlt : v * PGSIZE < oldsz
    · rw [if_pos hlt] at h
      obtain ⟨d1, t, hpage, hrest⟩ := bind_eq_ok.mp h
      rcases deallocPage_ok hv hpage with ⟨habs, rfl, rfl⟩ | ⟨hp, hr, hfree, hsome, rfl⟩
      · obtain ⟨hv1, hsafe'⟩ := hsafe.next hv hlt fun _ => habs
        rw [next_page hv1] at hrest
        have hrel := ih hv1 hold hsafe' hrest
        refine ⟨hrel.page, fun u hu => ?_, fun u hvu hu hlt' hp => ?_, hrel.conserves⟩
        · rw [hrel.ent u hu]
          by_cases huv : u = v
          · subst huv
            simp [habs]
          · have hiff : v + 1 ≤ u ↔ v ≤ u := by omega
            simp only [hiff]
        · have huv : u ≠ v := by
            rintro rfl
            rw [habs] at hp
            cases hp
          exact hrel.user u (by omega) hu hlt' hp
      · have huser := hsafe.user hv hlt hp hr
        have hvpn : vpn (v * PGSIZE) = v := vpn_mul_PGSIZE hv
        have hent : ∀ u, u < 2 ^ 20 →
            (d.setPte (v * PGSIZE) Pte.zero).ent u = if u = v then Pte.zero else d.ent u := by
          intro u hu
          rw [PageDir.ent_setPte d _ hu hsome, hvpn]
        obtain ⟨hv1, hsafe'⟩ := hsafe.next hv hlt (fun hge => by omega)
        have hsafe'' : DeallocSafe M (d.setPte (v * PGSIZE) Pte.zero) (v + 1) oldsz := by
          rcases hsafe' with hle | ⟨hk, hd⟩
          · exact .inl hle
          · refine .inr ⟨fun u hu hu' => ?_, hd⟩
            rw [hent u hu', if_neg (by omega)]
            exact hk u hu hu'
        rw [next_page hv1] at hrest
        have hrel := ih hv1 hold hsafe'' hrest
        have hcons : Conserves s t d.own (d.setPte (v * PGSIZE) Pte.zero).own := by
          refine ((kfree_conserves hfree).carry
            (d.setPte (v * PGSIZE) Pte.zero).own).congr (fun p => ?_) fun p => by simp [nothing]
          have hown := PageDir.own_setPte_user d Pte.zero p hsome (by rw [hvpn]; exact huser)
          rw [hvpn, Pte.count_of_present hp, Pte.zero_count] at hown
          omega
        refine ⟨by rw [hrel.page]; simp, fun u hu => ?_, fun u hvu hu hlt' hpu => ?_,
          hcons.trans hrel.conserves⟩
        · rw [hrel.ent u hu, hent u hu]
          by_cases huv : u = v
          · subst huv
            simp [hlt, hp]
          · have hiff : v + 1 ≤ u ↔ v ≤ u := by omega
            simp only [hiff, if_neg huv]
        · by_cases huv : u = v
          · rw [huv]
            exact huser
          · exact hrel.user u (by omega) hu hlt' (by rw [hent u hu, if_neg huv]; exact hpu)
    · rw [if_neg hlt] at h
      cases h
      refine ⟨rfl, fun u hu => ?_, fun u hvu _ hlt' _ => ?_, Conserves.refl _ _⟩
      · rw [if_neg]
        rintro ⟨hvu, hlt', -⟩
        simp only [PGSIZE] at hlt hlt'
        omega
      · simp only [PGSIZE] at hlt hlt'
        omega

theorem deallocuvm_ok {newsz r : Nat} (hold : oldsz < 2 ^ 32)
    (hsafe : newsz < oldsz → DeallocSafe M d (newsz / PGSIZE) oldsz)
    (h : deallocuvm M d oldsz newsz s = .ok ((d', r), s')) :
    (oldsz ≤ newsz ∧ r = oldsz ∧ d' = d ∧ s' = s) ∨
      (newsz < oldsz ∧ r = newsz ∧ Released d d' (newsz / PGSIZE) oldsz s s') := by
  unfold deallocuvm at h
  by_cases hge : newsz ≥ oldsz
  · rw [if_pos hge] at h
    cases h
    exact .inl ⟨hge, rfl, rfl, rfl⟩
  · rw [if_neg hge] at h
    obtain ⟨d1, t, hloop, h⟩ := bind_eq_ok.mp h
    cases h
    refine .inr ⟨by omega, rfl, ?_⟩
    exact deallocLoop_ok (by simp only [PGSIZE]; omega) (by omega) (hsafe (by omega)) hloop

/-! ## `freevm` -/

theorem freeTables_ok {n : Nat} {s' : Kmem} {u : Unit}
    (h : freeTables M d n s = .ok (u, s')) : Conserves s s' (d.tablesBelow n) nothing := by
  induction n generalizing s' with
  | zero =>
    cases h
    exact (Conserves.refl s nothing).congr (fun p => by simp [PageDir.tablesBelow, nothing])
      fun _ => rfl
  | succ n ih =>
    obtain ⟨_, t, hfirst, hlast⟩ := bind_eq_ok.mp h
    have hrest := ih hfirst
    cases hpde : d.pde n with
    | none =>
      rw [hpde] at hlast
      cases hlast
      refine hrest.congr (fun p => ?_) fun _ => rfl
      simp [PageDir.tablesBelow, Finset.sum_range_succ, hpde]
    | some pt =>
      rw [hpde] at hlast
      refine ((hrest.carry (single pt.page)).trans
        ((kfree_conserves hlast).congr (fun p => by simp [nothing]) fun _ => rfl)).congr
        (fun p => ?_) fun _ => rfl
      simp [PageDir.tablesBelow, Finset.sum_range_succ, hpde]

/-- Freeing a directory frees exactly the pages it owns. -/
theorem freevm_ok {u : Unit} (h : freevm M d s = .ok (u, s')) :
    Conserves s s' d.own nothing := by
  unfold freevm at h
  simp only [bind_eq_ok] at h
  obtain ⟨⟨d1, r⟩, t1, hdealloc, _, t2, htables, hpage⟩ := h
  rcases deallocuvm_ok (by decide) (fun _ => .inl le_rfl) hdealloc with
    ⟨hle, -⟩ | ⟨-, -, hrel⟩
  · simp only [KERNBASE] at hle
    omega
  · have huser : ∀ p, d1.userCount p = 0 := by
      intro p
      unfold PageDir.userCount
      refine Finset.sum_eq_zero fun v hv => ?_
      have hv' := Finset.mem_range.mp hv
      apply Pte.count_of_not_present
      rw [hrel.ent v (by simp only [userPages] at hv'; omega)]
      by_cases hp : (d.ent v).present = true
      · have hlt : v * PGSIZE < KERNBASE := by
          simp only [userPages] at hv'
          simp only [PGSIZE, KERNBASE]
          omega
        rw [if_pos ⟨by simp, hlt, hp⟩]
        rfl
      · rw [if_neg (fun hc => hp hc.2.2)]
        simpa using hp
    have hown : ∀ p, d1.own p = d1.tablesBelow NPDENTRIES p + single d1.page p := by
      intro p
      simp only [PageDir.own, huser p, PageDir.tableCount]
      omega
    refine hrel.conserves.trans ?_
    exact (((freeTables_ok htables).carry (single d1.page)).congr hown fun _ => rfl).trans
      ((kfree_conserves hpage).congr (fun p => by simp [nothing]) fun _ => rfl)

/-! ## `setupkvm` -/

/-- A row of `kmap` in pages: `n + 1` pages from virtual page `v` on are mapped to
the physical pages from `ppn` on. -/
structure Row where
  v : Nat
  n : Nat
  ppn : Nat
  perm : Nat

/-- The entries after mapping a row. -/
def Row.overlay (r : Row) (f : Nat → Pte) (u : Nat) : Pte :=
  if r.v ≤ u ∧ u ≤ r.v + r.n then ⟨r.ppn + (u - r.v), r.perm ||| PTE_P⟩ else f u

/-- The row in pages says what the row of `kmap` says in addresses, and lies above
`KERNBASE`. -/
structure Row.Fits (k : Kmap) (r : Row) : Prop where
  virt : k.virt = r.v * PGSIZE
  size : toUint ((k.physEnd : Int) - k.physStart) = (r.n + 1) * PGSIZE
  ppn : k.physStart / PGSIZE = r.ppn
  perm : k.perm = r.perm
  kernel : userPages ≤ r.v
  virt_lt : r.v + r.n < 2 ^ 20
  phys_lt : r.ppn + r.n < 2 ^ 20

/-- Mapping one row. -/
theorem mappages_row_ok {k : Kmap} {r : Row} {mapped : Bool} (hr : r.Fits k)
    (h : mappages d k.virt (toUint ((k.physEnd : Int) - k.physStart)) (k.physStart / PGSIZE)
      k.perm s = .ok ((d', mapped), s')) :
    Conserves s s' d.own d'.own ∧
      (mapped = true → ∀ u, u < 2 ^ 20 → d'.ent u = r.overlay d.ent u) := by
  obtain ⟨hvirt, hsize, hppn, hperm, hv, hvn, hpn⟩ := hr
  rw [hvirt, hsize, hppn, hperm] at h
  unfold mappages at h
  rw [last_page hvn, PGROUNDDOWN_page] at h
  obtain ⟨hgrows, hall⟩ := mappagesLoop_kernel_ok (by omega) hv hvn hpn h
  exact ⟨hgrows.conserves, hall⟩

theorem foldl_overlay_congr {f g : Nat → Pte} (rs : List Row)
    (h : ∀ u, u < 2 ^ 20 → f u = g u) {u : Nat} (hu : u < 2 ^ 20) :
    rs.foldl (fun f row => row.overlay f) f u = rs.foldl (fun f row => row.overlay f) g u := by
  induction rs generalizing f g with
  | nil => exact h u hu
  | cons row rs ih =>
    refine ih fun w hw => ?_
    simp only [Row.overlay, h w hw]

/-- The loop of `setupkvm`: all rows are mapped, or everything is given back. -/
theorem mapKernel_ok {ks : List Kmap} {rs : List Row} (hfits : List.Forall₂ (fun k r => r.Fits k) ks rs)
    {s : Kmem} {r : Option PageDir} (h : mapKernel M ks d s = .ok (r, s')) :
    (∃ d', r = some d' ∧ Conserves s s' d.own d'.own ∧
      ∀ u, u < 2 ^ 20 → d'.ent u = rs.foldl (fun f row => row.overlay f) d.ent u) ∨
      (r = none ∧ Conserves s s' d.own nothing) := by
  induction hfits generalizing d s with
  | nil =>
    cases h
    exact .inl ⟨d, rfl, Conserves.refl _ _, fun _ _ => rfl⟩
  | cons hrow _ ih =>
    unfold mapKernel at h
    obtain ⟨⟨d1, mapped⟩, t, hmap, hrest⟩ := bind_eq_ok.mp h
    obtain ⟨hcons, hall⟩ := mappages_row_ok hrow hmap
    cases mapped with
    | true =>
      rcases ih hrest with ⟨d', hr, hc, he⟩ | ⟨hr, hc⟩
      · refine .inl ⟨d', hr, hcons.trans hc, fun u hu => ?_⟩
        rw [he u hu]
        exact foldl_overlay_congr _ (hall rfl) hu
      · exact .inr ⟨hr, hcons.trans hc⟩
    | false =>
      simp only [Bool.false_eq_true, if_false] at hrest
      obtain ⟨_, t', hfree, hret⟩ := bind_eq_ok.mp hrest
      cases hret
      exact .inr ⟨rfl, hcons.trans (freevm_ok hfree)⟩

/-- The rows of `kmap` in pages. -/
def rows (M : Machine) : List Row :=
  [⟨0x80000, 0xFF, 0, PTE_W⟩, ⟨0x80100, M.dataPage - 0x101, 0x100, 0⟩,
    ⟨0x80000 + M.dataPage, 0x1FFFF - M.dataPage, M.dataPage, PTE_W⟩,
    ⟨0xFE000 - M.vramPages, M.vramPages - 1, M.vramPage, PTE_W⟩,
    ⟨0xC0000, 0xFFFF, 0x80000, PTE_W⟩,
    ⟨0xFE000, 0x1FFF, 0xFE000, PTE_W⟩]

/-- A row whose range does not wrap around. -/
theorem Row.fits_of_pages {k : Kmap} {r : Row} (hvirt : k.virt = r.v * PGSIZE)
    (hstart : k.physStart = r.ppn * PGSIZE) (hend : k.physEnd = (r.ppn + r.n + 1) * PGSIZE)
    (hperm : k.perm = r.perm) (hv : userPages ≤ r.v) (hvn : r.v + r.n < 2 ^ 20)
    (hpn : r.ppn + r.n < 2 ^ 20) : r.Fits k where
  virt := hvirt
  size := by
    simp only [userPages] at hv
    rw [hstart, hend, toUint_of_nonneg (by simp only [PGSIZE]; omega)
      (by simp only [PGSIZE]; omega)]
    simp only [PGSIZE]
    omega
  ppn := by
    rw [hstart]
    simp [PGSIZE]
  perm := hperm
  kernel := hv
  virt_lt := hvn
  phys_lt := hpn

theorem KERNLINK_eq_pages : KERNLINK = 0x80100 * PGSIZE := by
  simp [KERNLINK, KERNBASE, EXTMEM, PGSIZE]

theorem V2P_KERNLINK_eq_pages : V2P KERNLINK = 0x100 * PGSIZE := by
  simp [V2P, KERNLINK, KERNBASE, EXTMEM, PGSIZE]

theorem rows_fit (M : Machine) : List.Forall₂ (fun k r => r.Fits k) (kmap M) (rows M) := by
  obtain ⟨b1, b2, b3, b4, b5, b6, b7⟩ := Machine.bounds M
  refine .cons ?_ (.cons ?_ (.cons ?_ (.cons ?_ (.cons ?_ (.cons ?_ .nil)))))
  · apply Row.fits_of_pages <;> simp [KERNBASE, EXTMEM, PGSIZE, userPages]
  · apply Row.fits_of_pages KERNLINK_eq_pages V2P_KERNLINK_eq_pages <;>
      simp [PGSIZE, userPages] <;> omega
  · apply Row.fits_of_pages <;> simp [P2V, KERNBASE, PHYSTOP, PGSIZE, userPages] <;> omega
  · apply Row.fits_of_pages <;> simp [DEVSPACE, PGSIZE, userPages] <;> omega
  · apply Row.fits_of_pages <;>
      simp [PCI_BAR_BASE, PCI_VP_OFFSET, PGSIZE, userPages]
  · -- the end of the device area is the end of the address space, written as `0`
    exact {
      virt := by simp [DEVSPACE, PGSIZE]
      size := by simp [toUint, DEVSPACE, PGSIZE]
      ppn := by simp [DEVSPACE, PGSIZE]
      perm := rfl
      kernel := by simp [userPages]
      virt_lt := by simp
      phys_lt := by simp }

/-- The rows of `kmap` together give the kernel half: each region of the address
space is covered by at most one row. -/
theorem rows_overlay (M : Machine) (hv : v < 2 ^ 20) :
    (rows M).foldl (fun f row => row.overlay f) (fun _ => Pte.zero) v = kernelEnt M v := by
  obtain ⟨b1, b2, b3, b4, b5, b6, b7⟩ := Machine.bounds M
  have hregion : v < 0x80000 ∨ 0x80000 ≤ v ∧ v < 0x80100 ∨
      0x80100 ≤ v ∧ v < 0x80000 + M.dataPage ∨ 0x80000 + M.dataPage ≤ v ∧ v < 0xA0000 ∨
      0xA0000 ≤ v ∧ v < 0xC0000 ∨ 0xC0000 ≤ v ∧ v < 0xD0000 ∨
      0xD0000 ≤ v ∧ v < 0xFE000 - M.vramPages ∨ 0xFE000 - M.vramPages ≤ v ∧ v < 0xFE000 ∨
      0xFE000 ≤ v := by
    omega
  simp only [rows, List.foldl, Row.overlay]
  unfold kernelEnt
  rcases hregion with h | h | h | h | h | h | h | h | h <;>
    simp (disch := omega) only [if_pos, if_neg, Pte.mk.injEq, and_true] <;> omega

/-- A directory from `setupkvm` maps the kernel and nothing else, and owns pages
that were free before. -/
theorem setupkvm_ok {r : Option PageDir} (h : setupkvm M s = .ok (r, s')) :
    (∃ d, r = some d ∧ Conserves s s' nothing d.own ∧ ∀ v, v < 2 ^ 20 → d.ent v = kernelEnt M v) ∨
      (r = none ∧ Conserves s s' nothing nothing) := by
  unfold setupkvm at h
  have htop : ¬ P2V PHYSTOP > DEVSPACE := by decide
  simp only [bind_eq_ok, if_neg htop] at h
  obtain ⟨q, t, hk, h1⟩ := h
  cases q with
  | none =>
    cases h1
    obtain rfl := kalloc_none hk
    exact .inr ⟨rfl, Conserves.refl _ _⟩
  | some page =>
    simp only [bind_eq_ok] at h1
    obtain ⟨u, t', hfill, h2⟩ := h1
    have hstart : Conserves s t' nothing (PageDir.empty page).own := by
      refine ((kalloc_some hk).1.trans (fillPage_conserves hfill (by simp))).congr
        (fun _ => rfl) fun p => PageDir.own_empty page p
    rcases mapKernel_ok (rows_fit M) h2 with ⟨d, rfl, hc, he⟩ | ⟨rfl, hc⟩
    · refine .inl ⟨d, rfl, hstart.trans hc, fun v hv => ?_⟩
      rw [he v hv]
      exact rows_overlay M hv
    · exact .inr ⟨rfl, hstart.trans hc⟩

end Vm
end Xv6
