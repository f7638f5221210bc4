import Xv6.Vm.Model

/-!
# Pages are conserved

`Conserves s s' before after` relates the allocator before and after some code
that was handed the pages counted by `before` and hands back those counted by
`after`: no page is created or lost on the way, and the contents of a page that
was neither free nor handed over did not change.  The relation composes
(`Conserves.trans`) and any further pages can be carried along
(`Conserves.carry`), so the effect of each function of `vm.c` is stated as one
such relation and its proof follows the calls the function makes.
-/

namespace Xv6
namespace Vm

open Lib Lib.Exec Function

/-- How often a page is on the free list. -/
def Kmem.free (s : Kmem) (page : Nat) : Nat := s.freelist.count page

/-- The pages `before` become the pages `after`; everything else is untouched. -/
structure Conserves (s s' : Kmem) (before after : Nat → Nat) : Prop where
  ledger : ∀ p, s'.free p + after p = s.free p + before p
  frame : ∀ p, s.free p = 0 → before p = 0 → s'.mem p = s.mem p

namespace Conserves

variable {s s' s'' : Kmem} {a b c x : Nat → Nat}

theorem refl (s : Kmem) (a : Nat → Nat) : Conserves s s a a := ⟨fun _ => rfl, fun _ _ _ => rfl⟩

theorem trans (h1 : Conserves s s' a b) (h2 : Conserves s' s'' b c) : Conserves s s'' a c := by
  refine ⟨fun p => ?_, fun p hfree ha => ?_⟩
  · have := h1.ledger p
    have := h2.ledger p
    omega
  · have := h1.ledger p
    rw [h2.frame p (by omega) (by omega), h1.frame p hfree ha]

theorem carry (x : Nat → Nat) (h : Conserves s s' a b) :
    Conserves s s' (fun p => a p + x p) (fun p => b p + x p) := by
  refine ⟨fun p => ?_, fun p hfree ha => h.frame p hfree (by omega)⟩
  have := h.ledger p
  omega

/-- Ledgers are compared entry by entry. -/
theorem congr {a' b' : Nat → Nat} (h : Conserves s s' a b) (ha : ∀ p, a' p = a p)
    (hb : ∀ p, b' p = b p) : Conserves s s' a' b' := by
  rw [funext ha, funext hb]
  exact h

end Conserves

/-- The ledger of no page at all. -/
def nothing : Nat → Nat := fun _ => 0

/-- The ledger `a` has grown to `b` by pages taken from the free list.  The pages
counted by `a` are not touched. -/
def Grows (s s' : Kmem) (a b : Nat → Nat) : Prop :=
  ∃ x, Conserves s s' nothing x ∧ ∀ p, b p = a p + x p

namespace Grows

variable {s s' s'' : Kmem} {a b c : Nat → Nat}

theorem refl (s : Kmem) (a : Nat → Nat) : Grows s s a a :=
  ⟨nothing, Conserves.refl s _, fun _ => rfl⟩

theorem conserves (h : Grows s s' a b) : Conserves s s' a b := by
  obtain ⟨x, hx, hb⟩ := h
  refine (hx.carry a).congr (fun p => by simp [nothing]) fun p => ?_
  rw [hb p]
  omega

/-- A page that is not free keeps its contents. -/
theorem mem (h : Grows s s' a b) {p : Nat} (hp : s.free p = 0) : s'.mem p = s.mem p := by
  obtain ⟨x, hx, -⟩ := h
  exact hx.frame p hp rfl

theorem free_le (h : Grows s s' a b) (p : Nat) : s'.free p ≤ s.free p := by
  obtain ⟨x, hx, -⟩ := h
  have := hx.ledger p
  simp only [nothing] at this
  omega

theorem trans (h1 : Grows s s' a b) (h2 : Grows s' s'' b c) : Grows s s'' a c := by
  obtain ⟨x, hx, hb⟩ := h1
  obtain ⟨y, hy, hc⟩ := h2
  refine ⟨fun p => y p + x p, hx.trans ((hy.carry x).congr (fun p => by simp [nothing])
    fun _ => rfl), fun p => ?_⟩
  have := hb p
  have := hc p
  dsimp only
  omega

theorem carry (x : Nat → Nat) (h : Grows s s' a b) :
    Grows s s' (fun p => a p + x p) (fun p => b p + x p) := by
  obtain ⟨y, hy, hb⟩ := h
  refine ⟨y, hy, fun p => ?_⟩
  have := hb p
  dsimp only
  omega

theorem congr {a' b' : Nat → Nat} (h : Grows s s' a b) (ha : ∀ p, a' p = a p)
    (hb : ∀ p, b' p = b p) : Grows s s' a' b' := by
  rw [funext ha, funext hb]
  exact h

end Grows

variable {M : Machine} {s s' : Kmem}

theorem kalloc_cases (s : Kmem) :
    (s.freelist = [] ∧ kalloc s = .ok (none, s)) ∨ ∃ page rest, s.freelist = page :: rest ∧
        kalloc s = .ok (some page, { s with freelist := rest }) := by
  unfold kalloc
  cases s.freelist with
  | nil => exact .inl ⟨rfl, rfl⟩
  | cons page rest => exact .inr ⟨page, rest, rfl, rfl⟩

theorem kalloc_none (h : kalloc s = .ok (none, s')) : s' = s := by
  rcases kalloc_cases s with ⟨-, hrun⟩ | ⟨page, rest, -, hrun⟩
  · rw [hrun] at h
    cases h
    rfl
  · rw [hrun] at h
    cases h

variable {page v va : Nat}

theorem kalloc_some (h : kalloc s = .ok (some page, s')) :
    Conserves s s' nothing (single page) ∧ s'.mem = s.mem := by
  rcases kalloc_cases s with ⟨-, hrun⟩ | ⟨q, rest, hfl, hrun⟩
  · rw [hrun] at h
    cases h
  · rw [hrun] at h
    cases h
    refine ⟨⟨fun p => ?_, fun p _ _ => rfl⟩, rfl⟩
    simp only [Kmem.free, hfl, count_cons_eq, nothing]
    omega

variable {u : Unit}

theorem fillPage_ok {c : UInt8} (h : fillPage page c s = .ok (u, s')) :
    s'.freelist = s.freelist ∧ s'.mem = update s.mem page fun _ => c := by
  cases h
  exact ⟨rfl, rfl⟩

/-- Writing to a page that was handed over conserves pages. -/
theorem conserves_of_update {f : Nat → UInt8} {a : Nat → Nat}
    (hfree : s'.freelist = s.freelist) (hmem : s'.mem = update s.mem page f)
    (ha : 0 < a page) : Conserves s s' a a := by
  refine ⟨fun p => by simp only [Kmem.free, hfree], fun p _ hp => ?_⟩
  rw [hmem, update_of_ne]
  rintro rfl
  omega

theorem fillPage_conserves {c : UInt8} {a : Nat → Nat}
    (h : fillPage page c s = .ok (u, s')) (ha : 0 < a page) : Conserves s s' a a :=
  conserves_of_update (fillPage_ok h).1 (fillPage_ok h).2 ha

theorem kfree_ok (h : kfree M page s = .ok (u, s')) :
    M.InRange page ∧ s'.freelist = page :: s.freelist ∧
      s'.mem = update s.mem page fun _ => 1 := by
  unfold kfree at h
  by_cases hr : M.InRange page
  · rw [if_pos hr] at h
    cases h
    exact ⟨hr, rfl, rfl⟩
  · rw [if_neg hr] at h
    cases h

theorem kfree_conserves (h : kfree M page s = .ok (u, s')) :
    Conserves s s' (single page) nothing := by
  obtain ⟨-, hfree, hmem⟩ := kfree_ok h
  refine ⟨fun p => ?_, fun p _ hp => ?_⟩
  · simp only [Kmem.free, hfree, count_cons_eq, nothing]
    omega
  · rw [hmem, update_of_ne]
    rintro rfl
    simp at hp

theorem kfree_of_inRange (hr : M.InRange page) (s : Kmem) :
    kfree M page s = .ok ((), { freelist := page :: s.freelist,
                                mem := update s.mem page fun _ => 1 }) := by
  unfold kfree
  rw [if_pos hr]
  rfl

/-! ## `walkpgdir` -/

/-- What `walkpgdir` did: it kept every entry, and if it says so the table for
`va` is there now. -/
structure Walked (d d' : PageDir) (va : Nat) (found : Bool) (s s' : Kmem) : Prop where
  ent : ∀ v, d'.ent v = d.ent v
  found : found = true → (d'.pde (PDX va)).isSome
  grows : Grows s s' d.own d'.own

variable {d d' : PageDir}

theorem walkpgdir_ok {alloc found : Bool}
    (h : walkpgdir d va alloc s = .ok ((d', found), s')) : Walked d d' va found s s' := by
  unfold walkpgdir at h
  cases hpde : d.pde (PDX va) with
  | some t =>
    rw [hpde] at h
    cases h
    exact ⟨fun _ => rfl, fun _ => by simp [hpde], Grows.refl s _⟩
  | none =>
    rw [hpde] at h
    cases alloc with
    | false =>
      cases h
      exact ⟨fun _ => rfl, nofun, Grows.refl s _⟩
    | true =>
      simp only [if_true] at h
      obtain ⟨r, t, hk, h⟩ := bind_eq_ok.mp h
      cases r with
      | none =>
        cases h
        obtain rfl := kalloc_none hk
        exact ⟨fun _ => rfl, nofun, Grows.refl _ _⟩
      | some pgtab =>
        obtain ⟨u, t', hfill, h⟩ := bind_eq_ok.mp h
        cases h
        refine ⟨fun v => d.ent_addTable pgtab v hpde, fun _ => ?_, ?_⟩
        · simp [PageDir.addTable]
        · exact ⟨single pgtab, (kalloc_some hk).1.trans (fillPage_conserves hfill (by simp)),
            fun p => d.own_addTable pgtab p hpde⟩

theorem walkpgdir_noalloc (d : PageDir) (va : Nat) (s : Kmem) :
    walkpgdir d va false s = .ok ((d, (d.pde (PDX va)).isSome), s) := by
  unfold walkpgdir
  cases hpde : d.pde (PDX va) with
  | some t => rfl
  | none => rfl

theorem not_present_of_pde_none (h : d.pde (PDX va) = none) :
    (d.pte va).present = false := by
  simp [PageDir.pte, h]

/-- A present page has a page table. -/
theorem table_of_present {u : Nat} (h : (d.ent u).present = true) :
    (d.pde (u / 1024)).isSome = true := by
  cases hpde : d.pde (u / 1024) with
  | some t => rfl
  | none =>
    have hzero : d.ent u = Pte.zero := by rw [PageDir.ent, hpde]
    rw [hzero] at h
    cases h

/-- A present entry has a table. -/
theorem walk_present {e : Pte} (he : d.pte va = e) :
    ((d.pde (PDX va)).isSome && e.present) = e.present := by
  cases hpde : d.pde (PDX va) with
  | some t => rfl
  | none =>
    have := not_present_of_pde_none hpde
    rw [he] at this
    rw [this]
    rfl

/-! ## `mappages` -/

theorem toUint_of_nonneg {x : Int} (h0 : 0 ≤ x) (h : x < 2 ^ 32) : toUint x = x.toNat := by
  simp only [toUint]
  rw [Int.emod_eq_of_lt h0 h]

theorem PGROUNDDOWN_page (v : Nat) : PGROUNDDOWN (v * PGSIZE) = v * PGSIZE := by
  rw [PGROUNDDOWN, Nat.mul_div_cancel _ (by decide)]

theorem next_page (hv : v + 1 < 2 ^ 20) :
    (v * PGSIZE + PGSIZE) % 2 ^ 32 = (v + 1) * PGSIZE := by
  simp only [PGSIZE]
  omega

theorem page_ne {u : Nat} (h : u ≠ v) : u * PGSIZE ≠ v * PGSIZE := by
  simp only [PGSIZE]
  omega

/-- The entry of a page that was not mapped is still free when its table has been found. -/
theorem Walked.absent {found : Bool} (hw : Walked d d' (v * PGSIZE) found s s') (hv : v < 2 ^ 20)
    (habs : (d.ent v).present = false) : (d'.pte (v * PGSIZE)).present = false := by
  rwa [PageDir.pte_eq_ent, vpn_mul_PGSIZE hv, hw.ent]

/-- An entry for the kernel's part gives the directory nothing. -/
theorem Walked.grows_kernel (hw : Walked d d' (v * PGSIZE) true s s') (hv : userPages ≤ v)
    (hv' : v < 2 ^ 20) (e : Pte) : Grows s s' d.own (d'.setPte (v * PGSIZE) e).own :=
  hw.grows.congr (fun _ => rfl) fun p =>
    PageDir.own_setPte_kernel d' e p (hw.found rfl) (by rwa [vpn_mul_PGSIZE hv'])

/-- The last page of a range. -/
theorem last_page {n : Nat} (hvn : v + n < 2 ^ 20) :
    PGROUNDDOWN (toUint (((v * PGSIZE : Nat) : Int) + ((n + 1) * PGSIZE : Nat) - 1)) =
      (v + n) * PGSIZE := by
  rw [toUint_of_nonneg (by simp only [PGSIZE]; omega) (by simp only [PGSIZE]; omega)]
  simp only [PGROUNDDOWN, PGSIZE]
  omega

/-- Mapping one page is one turn of the loop. -/
theorem mappages_page (d : PageDir) (hv : v < 2 ^ 20) (ppn perm : Nat) :
    mappages d (v * PGSIZE) PGSIZE ppn perm =
      mappagesLoop perm (v * PGSIZE) (1048575 + 1) d (v * PGSIZE) ppn := by
  have hlast := last_page (n := 0) hv
  rw [Nat.zero_add, Nat.one_mul, Nat.add_zero] at hlast
  unfold mappages
  rw [hlast, PGROUNDDOWN_page, show (2 : Nat) ^ 20 = 1048575 + 1 from rfl]

/-- What mapping one page did. -/
structure Mapped (d d' : PageDir) (v : Nat) (e : Pte) (mapped : Bool) : Prop where
  absent : mapped = true → (d.ent v).present = false
  ent : ∀ u, u < 2 ^ 20 → d'.ent u = if u = v ∧ mapped = true then e else d.ent u

/-- One turn of the loop: there is no page for a table, or the entry is written and the loop ends
or goes on. -/
theorem mappagesLoop_turn {perm last fuel ppn : Nat} {mapped : Bool} (hv : v < 2 ^ 20)
    (h : mappagesLoop perm last (fuel + 1) d (v * PGSIZE) ppn s = .ok ((d', mapped), s')) :
    (mapped = false ∧ walkpgdir d (v * PGSIZE) true s = .ok ((d', false), s')) ∨
      ∃ d1 d2 t, walkpgdir d (v * PGSIZE) true s = .ok ((d1, true), t) ∧
        d2 = d1.setPte (v * PGSIZE) ⟨ppn, perm ||| PTE_P⟩ ∧ Mapped d d2 v ⟨ppn, perm ||| PTE_P⟩ true ∧
        (if v * PGSIZE = last then pure (d2, true)
          else mappagesLoop perm last fuel d2 ((v * PGSIZE + PGSIZE) % 2 ^ 32)
            ((ppn + 1) % 2 ^ 20)) t = .ok ((d', mapped), s') := by
  unfold mappagesLoop at h
  obtain ⟨⟨d1, found⟩, t, hwalk, h⟩ := bind_eq_ok.mp h
  have hw := walkpgdir_ok hwalk
  cases found with
  | false =>
    cases h
    exact .inl ⟨rfl, hwalk⟩
  | true =>
    simp only [if_true] at h
    have hvpn : vpn (v * PGSIZE) = v := vpn_mul_PGSIZE hv
    by_cases hpres : (d1.pte (v * PGSIZE)).present = true
    · rw [if_pos hpres] at h
      cases h
    · rw [if_neg hpres] at h
      refine .inr ⟨d1, _, t, hwalk, rfl, ⟨fun _ => ?_, fun u hu => ?_⟩, h⟩
      · rw [PageDir.pte_eq_ent, hvpn, hw.ent] at hpres
        simpa using hpres
      · rw [PageDir.ent_setPte d1 _ hu (hw.found rfl), hvpn, hw.ent]
        simp

/-- Mapping a user page hands the page over to the directory; on failure the
page is still the caller's.  Nothing but free pages is written to. -/
theorem mappages_user_ok {ppn perm : Nat} {mapped : Bool} (hv : v < userPages)
    (h : mappages d (v * PGSIZE) PGSIZE ppn perm s = .ok ((d', mapped), s')) :
    Mapped d d' v ⟨ppn, perm ||| PTE_P⟩ mapped ∧
      Grows s s' (fun p => d.own p + if mapped then single ppn p else 0) d'.own := by
  have hv' : v < 2 ^ 20 := by
    simp only [userPages] at hv
    omega
  rw [mappages_page d hv'] at h
  rcases mappagesLoop_turn hv' h with ⟨rfl, hwalk⟩ | ⟨d1, d2, t, hwalk, hd2, hmapped, h⟩
  · have hw := walkpgdir_ok hwalk
    refine ⟨⟨fun h => Bool.noConfusion h, fun u _ => by simp [hw.ent]⟩, ?_⟩
    exact hw.grows.congr (fun _ => by simp) fun _ => rfl
  · have hw := walkpgdir_ok hwalk
    rw [if_pos rfl] at h
    cases h
    refine ⟨hmapped, (hw.grows.carry (single ppn)).congr (fun p => by rw [if_pos rfl]) fun p => ?_⟩
    have hvpn : vpn (v * PGSIZE) = v := vpn_mul_PGSIZE hv'
    have hown := PageDir.own_setPte_user d1 ⟨ppn, perm ||| PTE_P⟩ p (hw.found rfl) (by rwa [hvpn])
    rw [hvpn, hw.ent, Pte.count_of_not_present (hmapped.absent rfl),
      Pte.count_of_present (Pte.present_or_P ppn perm)] at hown
    simpa [hd2] using hown

/-- Mapping a range of kernel pages, without wrapping around: on success exactly
the range is mapped, and the directory owns its new page tables. -/
theorem mappagesLoop_kernel_ok {perm : Nat} {mapped : Bool} {d' : PageDir} {n : Nat} :
    ∀ {fuel v ppn : Nat} {d : PageDir} {s : Kmem}, n < fuel → userPages ≤ v →
      v + n < 2 ^ 20 → ppn + n < 2 ^ 20 →
      mappagesLoop perm ((v + n) * PGSIZE) fuel d (v * PGSIZE) ppn s = .ok ((d', mapped), s') →
      Grows s s' d.own d'.own ∧ (mapped = true → ∀ u, u < 2 ^ 20 →
        d'.ent u = if v ≤ u ∧ u ≤ v + n then ⟨ppn + (u - v), perm ||| PTE_P⟩ else d.ent u) := by
  -- by induction on the number of pages still to be mapped after this one
  induction n with
  | zero =>
    intro fuel v ppn d s hfuel hv hvn hppn h
    obtain ⟨fuel, rfl⟩ := Nat.exists_eq_succ_of_ne_zero (show fuel ≠ 0 by omega)
    rcases mappagesLoop_turn (by omega) h with ⟨rfl, hwalk⟩ | ⟨d1, d2, t, hwalk, hd2, hmapped, h⟩
    · exact ⟨(walkpgdir_ok hwalk).grows, nofun⟩
    · rw [if_pos (by simp)] at h
      cases h
      refine ⟨hd2 ▸ (walkpgdir_ok hwalk).grows_kernel hv (by omega) _, fun _ u hu => ?_⟩
      rw [hmapped.ent u hu]
      by_cases huv : u = v
      · subst huv
        simp
      · rw [if_neg fun h => huv h.1, if_neg (by omega)]
  | succ n ih =>
    intro fuel v ppn d s hfuel hv hvn hppn h
    obtain ⟨fuel, rfl⟩ := Nat.exists_eq_succ_of_ne_zero (show fuel ≠ 0 by omega)
    rcases mappagesLoop_turn (by omega) h with ⟨rfl, hwalk⟩ | ⟨d1, d2, t, hwalk, hd2, hmapped, h⟩
    · exact ⟨(walkpgdir_ok hwalk).grows, nofun⟩
    · rw [if_neg (page_ne (by omega)), next_page (by omega), Nat.mod_eq_of_lt (by omega),
        show v + (n + 1) = v + 1 + n by omega] at h
      obtain ⟨hgrows, hall⟩ := ih (by omega) (by omega) (by omega) (by omega) h
      refine ⟨(hd2 ▸ (walkpgdir_ok hwalk).grows_kernel hv (by omega) _).trans hgrows,
        fun hm u hu => ?_⟩
      have hent := hmapped.ent u hu
      rw [hall hm u hu]
      by_cases huv : u = v
      · subst huv
        rw [if_neg (by omega), hent, if_pos ⟨rfl, rfl⟩, if_pos (by omega)]
        simp
      · rw [if_neg fun h => huv h.1] at hent
        rw [hent]
        by_cases hin : v + 1 ≤ u ∧ u ≤ v + 1 + n
        · rw [if_pos hin, if_pos (by omega), show ppn + 1 + (u - (v + 1)) = ppn + (u - v) by omega]
        · rw [if_neg hin, if_neg (by omega)]

end Vm
end Xv6
