import Xv6.Vm.User

/-!
# Enough memory is enough

The functions of `vm.c` fail only for lack of pages.  This module bounds the
number of pages each of them takes: a range of virtual pages needs one page table
for each directory entry it meets.  With that many pages on the free list the
function returns, and returns success.

The bounds are generous; they serve to show that the kernel boots and that a
process can fork.
-/

namespace Xv6
namespace Vm

open Lib Lib.Exec Function

variable {M : Machine} {s s' : Kmem} {d d' : PageDir}

/-- The free list after `n` pages at most were taken. -/
def Spends (n : Nat) (s s' : Kmem) : Prop := s.freelist.length ≤ s'.freelist.length + n

theorem Spends.refl (s : Kmem) : Spends 0 s s := le_rfl

theorem Spends.trans {m n : Nat} {s1 s2 s3 : Kmem} (h1 : Spends m s1 s2) (h2 : Spends n s2 s3) :
    Spends (m + n) s1 s3 := by
  unfold Spends at *
  omega

theorem Spends.mono {m n : Nat} (h : Spends m s s') (hmn : m ≤ n) : Spends n s s' := by
  unfold Spends at *
  omega

theorem kalloc_total (h : 0 < s.freelist.length) :
    ∃ page t, kalloc s = .ok (some page, t) ∧ Spends 1 s t := by
  rcases kalloc_cases s with ⟨hnil, -⟩ | ⟨page, rest, hcons, hrun⟩
  · rw [hnil] at h
    simp at h
  · refine ⟨page, _, hrun, ?_⟩
    simp [Spends, hcons]

/-- Pages needed for the table of directory entry `i`. -/
def missing (d : PageDir) (i : Nat) : Nat := if (d.pde i).isSome then 0 else 1

theorem missing_le_one (d : PageDir) (i : Nat) : missing d i ≤ 1 := by
  unfold missing
  split <;> omega

theorem walkpgdir_total (va : Nat) (h : missing d (PDX va) ≤ s.freelist.length) :
    ∃ d' t, walkpgdir d va true s = .ok ((d', true), t) ∧ Spends (missing d (PDX va)) s t ∧
      missing d' (PDX va) = 0 := by
  unfold walkpgdir
  cases hpde : d.pde (PDX va) with
  | some t =>
    refine ⟨d, s, rfl, ?_, ?_⟩
    · simp [missing, hpde, Spends]
    · simp [missing, hpde]
  | none =>
    have hone : missing d (PDX va) = 1 := by simp [missing, hpde]
    obtain ⟨page, t, hk, hsp⟩ := kalloc_total (s := s) (by omega)
    refine ⟨d.addTable va page, { t with mem := update t.mem page fun _ => 0 }, ?_, ?_, ?_⟩
    · simp only [if_true]
      rw [bind_of_ok hk]
      rfl
    · rw [hone]
      exact hsp
    · simp [missing, PageDir.addTable]

theorem missing_setPte (d : PageDir) (va : Nat) (e : Pte) (i : Nat) :
    missing (d.setPte va e) i = missing d i := by
  unfold missing PageDir.setPte
  cases hpde : d.pde (PDX va) with
  | none => rfl
  | some t =>
    by_cases hi : i = PDX va
    · subst hi
      simp [hpde]
    · simp [update_of_ne hi]

/-- Mapping `n + 1` pages from page `v` on, none of them mapped before, takes one
page for each missing table. -/
theorem mappagesLoop_total {perm n : Nat} :
    ∀ {fuel v ppn : Nat} {d : PageDir} {s : Kmem}, n < fuel → v + n < 2 ^ 20 →
      (0 < n → ppn + n < 2 ^ 20) →
      (∀ u, v ≤ u → u ≤ v + n → (d.ent u).present = false) →
      (v + n) / 1024 - v / 1024 + missing d (v / 1024) ≤ s.freelist.length →
      ∃ d' t, mappagesLoop perm ((v + n) * PGSIZE) fuel d (v * PGSIZE) ppn s = .ok ((d', true), t) ∧
        Spends ((v + n) / 1024 - v / 1024 + missing d (v / 1024)) s t := by
  induction n with
  | zero =>
    intro fuel v ppn d s hfuel hv hppn habs hlen
    obtain ⟨fuel, rfl⟩ := Nat.exists_eq_succ_of_ne_zero (show fuel ≠ 0 by omega)
    have hpdx : PDX (v * PGSIZE) = v / 1024 := by
      rw [PDX_eq_vpn, vpn_mul_PGSIZE (by omega)]
    obtain ⟨d1, t, hwalk, hsp, -⟩ := walkpgdir_total (d := d) (s := s)
      (v * PGSIZE) (by rw [hpdx]; omega)
    have hw := walkpgdir_ok hwalk
    have hp := hw.absent (by omega) (habs v le_rfl (by omega))
    refine ⟨d1.setPte (v * PGSIZE) ⟨ppn, perm ||| PTE_P⟩, t, ?_, ?_⟩
    · unfold mappagesLoop
      rw [bind_of_ok hwalk]
      simp only [if_true, hp, Bool.false_eq_true, if_false, Nat.add_zero]
      rfl
    · rw [hpdx] at hsp
      exact hsp.mono (by omega)
  | succ n ih =>
    intro fuel v ppn d s hfuel hv hppn habs hlen
    obtain ⟨fuel, rfl⟩ := Nat.exists_eq_succ_of_ne_zero (show fuel ≠ 0 by omega)
    have hpdx : PDX (v * PGSIZE) = v / 1024 := by
      rw [PDX_eq_vpn, vpn_mul_PGSIZE (by omega)]
    obtain ⟨d1, t, hwalk, hsp, hzero⟩ := walkpgdir_total (d := d)
      (s := s) (v * PGSIZE) (by rw [hpdx]; omega)
    rw [hpdx] at hsp hzero
    have hw := walkpgdir_ok hwalk
    have hp := hw.absent (by omega) (habs v le_rfl (by omega))
    have hne : v * PGSIZE ≠ (v + (n + 1)) * PGSIZE := page_ne (by omega)
    have hppn1 := hppn (by omega)
    have hppn' : (ppn + 1) % 2 ^ 20 = ppn + 1 := Nat.mod_eq_of_lt (by omega)
    obtain ⟨d2, hd2⟩ : ∃ d2, d2 = d1.setPte (v * PGSIZE) ⟨ppn, perm ||| PTE_P⟩ := ⟨_, rfl⟩
    have hmiss2 : missing d2 ((v + 1) / 1024) ≤ (v + 1) / 1024 - v / 1024 := by
      rw [hd2, missing_setPte]
      by_cases hq : (v + 1) / 1024 = v / 1024
      · rw [hq, hzero]
        omega
      · have := missing_le_one d1 ((v + 1) / 1024)
        omega
    have hspent : s.freelist.length ≤ t.freelist.length + missing d (v / 1024) := hsp
    obtain ⟨d', t', hrest, hsp'⟩ := @ih fuel (v + 1) (ppn + 1) d2 t
      (by omega) (by omega) (fun _ => by omega)
      (fun u hu hu' => by
        rw [hd2, PageDir.ent_setPte d1 _ (by omega) (hw.found rfl), vpn_mul_PGSIZE (by omega),
          if_neg (by omega), hw.ent]
        exact habs u (by omega) (by omega))
      (by omega)
    refine ⟨d', t', ?_, (hsp.trans hsp').mono (by omega)⟩
    unfold mappagesLoop
    rw [bind_of_ok hwalk]
    simp only [if_true, hp, Bool.false_eq_true, if_false, if_neg hne,
      next_page (show v + 1 < 2 ^ 20 by omega), hppn']
    rw [← hd2, show v + (n + 1) = v + 1 + n by omega]
    exact hrest

/-- Mapping one user page takes at most one page, for its table. -/
theorem mappages_user_total {v : Nat} (ppn perm : Nat) (hv : v < userPages)
    (habs : (d.ent v).present = false) (hlen : missing d (v / 1024) ≤ s.freelist.length) :
    ∃ d' t, mappages d (v * PGSIZE) PGSIZE ppn perm s = .ok ((d', true), t) ∧
      Spends (missing d (v / 1024)) s t := by
  simp only [userPages] at hv
  obtain ⟨d', t, hrun, hsp⟩ := @mappagesLoop_total perm 0 (2 ^ 20) v ppn d s
    (by decide) (by omega) (fun h0 => by omega)
    (fun u hu hu' => by rw [show u = v by omega]; exact habs) (by omega)
  refine ⟨d', t, ?_, hsp.mono (by omega)⟩
  rw [mappages_page d (by omega)]
  exact hrun

/-- The pages a row of `kmap` may need for its tables. -/
def Row.cost (r : Row) : Nat := r.n / 1024 + 2

theorem mappages_row_total {k : Kmap} {r : Row} (hr : r.Fits k)
    (habs : ∀ u, r.v ≤ u → u ≤ r.v + r.n → (d.ent u).present = false)
    (hlen : r.cost ≤ s.freelist.length) :
    ∃ d' t, mappages d k.virt (toUint ((k.physEnd : Int) - k.physStart)) (k.physStart / PGSIZE)
      k.perm s = .ok ((d', true), t) ∧ Spends r.cost s t := by
  obtain ⟨hvirt, hsize, hppn, hperm, hv, hvn, hpn⟩ := hr
  have hmiss := missing_le_one d (r.v / 1024)
  unfold Row.cost at *
  obtain ⟨d', t, hrun, hsp⟩ := @mappagesLoop_total r.perm r.n (2 ^ 20) r.v r.ppn
    d s (by omega) hvn (fun _ => hpn) habs (by omega)
  refine ⟨d', t, ?_, hsp.mono (by omega)⟩
  rw [hvirt, hsize, hppn, hperm]
  unfold mappages
  rw [last_page hvn, PGROUNDDOWN_page]
  exact hrun

theorem Row.virt_lt_of_fits {ks : List Kmap} {rs : List Row}
    (hfits : List.Forall₂ (fun k r => r.Fits k) ks rs) : ∀ r ∈ rs, r.v + r.n < 2 ^ 20 := by
  induction hfits with
  | nil => exact fun r hr => (List.not_mem_nil hr).elim
  | cons hrow _ ih =>
    intro r hr
    rcases List.mem_cons.mp hr with rfl | hr
    · exact hrow.virt_lt
    · exact ih r hr

/-- Rows that do not overlap can be mapped one after the other. -/
theorem mapKernel_total {ks : List Kmap} {rs : List Row}
    (hfits : List.Forall₂ (fun k r => r.Fits k) ks rs)
    (hdisj : rs.Pairwise fun r r' => r.v + r.n < r'.v ∨ r'.v + r'.n < r.v)
    {d : PageDir} {s : Kmem}
    (habs : ∀ r ∈ rs, ∀ u, r.v ≤ u → u ≤ r.v + r.n → (d.ent u).present = false)
    (hlen : (rs.map Row.cost).sum ≤ s.freelist.length) :
    ∃ d' t, mapKernel M ks d s = .ok (some d', t) ∧ Spends (rs.map Row.cost).sum s t := by
  induction hfits generalizing d s with
  | nil => exact ⟨d, s, rfl, Spends.refl s⟩
  | @cons k r ks rs hrow hrows ih =>
    simp only [List.map_cons, List.sum_cons] at hlen ⊢
    obtain ⟨hhead, htail⟩ := List.pairwise_cons.mp hdisj
    obtain ⟨d1, t, hmap, hsp⟩ := mappages_row_total (s := s) hrow
      (habs r List.mem_cons_self) (by omega)
    obtain ⟨-, hent⟩ := mappages_row_ok hrow hmap
    have hspent : s.freelist.length ≤ t.freelist.length + r.cost := hsp
    obtain ⟨d', t', hrest, hsp'⟩ := ih (d := d1) (s := t) htail (fun r' hr' u hu hu' => by
      have hlt := Row.virt_lt_of_fits hrows r' hr'
      rw [hent rfl u (by omega), Row.overlay, if_neg]
      · exact habs r' (List.mem_cons_of_mem r hr') u hu hu'
      · have := hhead r' hr'
        omega) (by omega)
    refine ⟨d', t', ?_, hsp.trans hsp'⟩
    unfold mapKernel
    rw [bind_of_ok hmap]
    exact hrest

/-- The rows of `kmap` do not overlap. -/
theorem rows_disjoint (M : Machine) :
    (rows M).Pairwise fun r r' => r.v + r.n < r'.v ∨ r'.v + r'.n < r.v := by
  obtain ⟨b1, b2, b3, b4, b5, b6, b7⟩ := Machine.bounds M
  simp only [rows, List.pairwise_cons, List.mem_cons, List.not_mem_nil, or_false,
    forall_eq_or_imp, forall_eq, List.Pairwise.nil, and_true, IsEmpty.forall_iff, implies_true]
  omega

/-- Pages that are enough for `setupkvm`, whatever the frame buffer. -/
def setupCost : Nat := 400

theorem setupkvm_total (hlen : setupCost ≤ s.freelist.length) :
    ∃ d t, setupkvm M s = .ok (some d, t) ∧ Spends setupCost s t := by
  obtain ⟨b1, b2, b3, b4, b5, b6, b7⟩ := Machine.bounds M
  unfold setupCost at *
  obtain ⟨page, t, hk, hsp⟩ := kalloc_total (s := s) (by omega)
  obtain ⟨t1, ht1⟩ : ∃ t1 : Kmem, t1 = { t with mem := update t.mem page fun _ => 0 } :=
    ⟨_, rfl⟩
  have hcost : ((rows M).map Row.cost).sum ≤ 399 := by
    simp only [rows, List.map_cons, List.map_nil, List.sum_cons, List.sum_nil, Row.cost]
    omega
  have hspent : s.freelist.length ≤ t1.freelist.length + 1 := by
    rw [ht1]
    exact hsp
  obtain ⟨d, t', hrun, hsp'⟩ := mapKernel_total (M := M) (rows_fit M) (rows_disjoint M)
    (d := PageDir.empty page) (s := t1) (fun _ _ _ _ _ => by simp) (by omega)
  refine ⟨d, t', ?_, ?_⟩
  · have htop : ¬ P2V PHYSTOP > DEVSPACE := by decide
    unfold setupkvm
    rw [bind_of_ok hk]
    dsimp only
    rw [bind_of_ok (show fillPage page 0 t = .ok ((), t1) by rw [ht1]; rfl), if_neg htop]
    exact hrun
  · have hsp1 : Spends 1 s t1 := by
      rw [ht1]
      exact hsp
    exact (hsp1.trans hsp').mono (by omega)

/-- A fresh page and its mapping take at most two pages. -/
theorem take_map_total {v : Nat} (perm : Nat) (f : Kmem → Nat → UInt8) (hv : v < userPages)
    (habs : (d.ent v).present = false) (hlen : 2 ≤ s.freelist.length) :
    ∃ mem t d' t', kalloc s = .ok (some mem, t) ∧ mappages d (v * PGSIZE) PGSIZE mem perm
        { t with mem := update t.mem mem (f t) } = .ok ((d', true), t') ∧
      Spends 2 s t' := by
  obtain ⟨mem, t, hk, hsp⟩ := kalloc_total (s := s) (by omega)
  have hspent : s.freelist.length ≤ t.freelist.length + 1 := hsp
  have hmiss := missing_le_one d (v / 1024)
  obtain ⟨d', t', hmap, hsp'⟩ := mappages_user_total mem perm
    (s := { t with mem := update t.mem mem (f t) }) hv habs
    (by change _ ≤ t.freelist.length; omega)
  have hspent' : t.freelist.length ≤ t'.freelist.length + missing d (v / 1024) := hsp'
  refine ⟨mem, t, d', t', hk, hmap, ?_⟩
  unfold Spends
  omega

/-- Two pages for each page that is there are enough to copy the last `n` user pages. -/
theorem copyLoop_total {parent : PageDir} {n : Nat} {us : Finset Nat} (hn : n ≤ userPages)
    (hus : ∀ u, userPages - n ≤ u → u < userPages → (parent.ent u).present = true → u ∈ us)
    (habs : ∀ u, userPages - n ≤ u → u < userPages → (d.ent u).present = false)
    (hlen : 2 * us.card ≤ s.freelist.length) :
    ∃ d' t, copyLoop M parent n d s = .ok (some d', t) ∧ Spends (2 * us.card) s t := by
  induction n generalizing d s us with
  | zero => exact ⟨d, s, rfl, (Spends.refl s).mono (Nat.zero_le _)⟩
  | succ n ih =>
    obtain ⟨v, hv⟩ : ∃ v, v = userPages - (n + 1) := ⟨_, rfl⟩
    have hlow : v < userPages := by omega
    have hpte : parent.pte (v * PGSIZE) = parent.ent v := by
      rw [PageDir.pte_eq_ent, vpn_mul_PGSIZE (Nat.lt_trans hlow (by decide))]
    rw [copyLoop, ← hv, bind_of_ok (walkpgdir_noalloc parent _ s)]
    simp only [hpte, walk_present hpte]
    cases hp : (parent.ent v).present with
    | false =>
      rw [if_neg Bool.false_ne_true]
      exact ih (by omega) (fun u hu => hus u (by omega)) (fun u hu => habs u (by omega)) hlen
    | true =>
      have hmem := hus v (Nat.le_of_eq hv.symm) hlow hp
      have hcard := Finset.card_erase_of_mem hmem
      have hpos : 0 < us.card := Finset.card_pos.mpr ⟨v, hmem⟩
      obtain ⟨mem, t, d1, t1, hk, hmap, hsp⟩ := take_map_total (s := s) (d := d)
        (parent.ent v).flags (fun t => t.mem (parent.ent v).ppn) hlow
        (habs v (Nat.le_of_eq hv.symm) hlow) (by omega)
      have hspent : s.freelist.length ≤ t1.freelist.length + 2 := hsp
      have hent := (mappages_user_ok hlow hmap).1.ent
      -- the page is no longer among those to come
      obtain ⟨d', t', hrest, hsp'⟩ := ih (d := d1) (s := t1) (by omega)
        (fun u hu hlt hpu => show u ∈ us.erase v from
          Finset.mem_erase.mpr ⟨by omega, hus u (by omega) hlt hpu⟩)
        (fun u hu hlt => by
          rw [hent u (Nat.lt_trans hlt (by decide)), if_neg (by omega)]
          exact habs u (by omega) hlt) (by omega)
      refine ⟨d', t', ?_, (hsp.trans hsp').mono (by omega)⟩
      rw [if_pos rfl, bind_of_ok hk]
      dsimp only
      rw [bind_of_ok (show copyPage mem (parent.ent v).ppn t = .ok ((), _) from rfl),
        bind_of_ok hmap]
      exact hrest

/-- With enough free pages the pages of a parent are copied. -/
theorem copyuvm_total {parent : PageDir} {us : Finset Nat}
    (hus : ∀ u, u < userPages → (parent.ent u).present = true → u ∈ us)
    (hlen : setupCost + 2 * us.card ≤ s.freelist.length) :
    ∃ child t, copyuvm M parent s = .ok (some child, t) := by
  obtain ⟨d, t, hset, hsp⟩ := setupkvm_total (M := M) (s := s) (by omega)
  have hspent : s.freelist.length ≤ t.freelist.length + setupCost := hsp
  rcases setupkvm_ok hset with ⟨_, ⟨⟩, -, hent⟩ | ⟨hnone, -⟩
  · obtain ⟨child, t', hloop, -⟩ := copyLoop_total (M := M) (d := d) (s := t) (Nat.le_refl userPages)
      (fun u _ hu hp => hus u hu hp) (fun u _ hu => by
        rw [hent u (Nat.lt_trans hu (by decide)), kernelEnt_user M hu]
        rfl) (by omega)
    refine ⟨child, t', ?_⟩
    rw [copyuvm, bind_of_ok hset]
    exact hloop
  · cases hnone

theorem inituvm_total {init : List UInt8} (hinit : init.length < PGSIZE)
    (habs : (d.ent 0).present = false) (hlen : 2 ≤ s.freelist.length) :
    ∃ d' t, inituvm d init s = .ok (d', t) ∧ Spends 2 s t := by
  obtain ⟨mem, t, d', t', hk, hmap, hsp⟩ := take_map_total (s := s) (v := 0)
    (PTE_W ||| PTE_U) (fun _ _ => 0) (by decide) habs hlen
  rw [Nat.zero_mul] at hmap
  unfold inituvm
  rw [if_neg (by omega), bind_of_ok hk]
  dsimp only
  rw [bind_of_ok (show fillPage mem 0 t = .ok ((), _) from rfl), bind_of_ok hmap]
  exact ⟨d', _, rfl, hsp⟩

theorem allocLoop_total {oldsz v n : Nat} (hvn : v + n < userPages) :
    ∀ {fuel v' : Nat} {d : PageDir} {s : Kmem}, v ≤ v' → v' ≤ v + n → v + n - v' < fuel →
      (∀ u, v' ≤ u → u < v + n → (d.ent u).present = false) →
      2 * (v + n - v') ≤ s.freelist.length →
      ∃ d' t, allocLoop M oldsz ((v + n) * PGSIZE) fuel d (v' * PGSIZE) s =
          .ok ((d', (v + n) * PGSIZE), t) ∧ Spends (2 * (v + n - v')) s t := by
  intro fuel
  induction fuel with
  | zero =>
    intro v' d s _ _ hfuel
    omega
  | succ fuel ih =>
    intro v' d s hv hv' hfuel habs hlen
    unfold allocLoop
    by_cases hlt : v' * PGSIZE < (v + n) * PGSIZE
    · have hlt' : v' < v + n := by
        simp only [PGSIZE] at hlt
        omega
      obtain ⟨mem, t, d1, t1, hk, hmap, hsp⟩ := take_map_total (s := s) (v := v') (d := d)
        (PTE_W ||| PTE_U) (fun _ _ => 0) (by omega) (habs v' le_rfl hlt') (by omega)
      have hspent : s.freelist.length ≤ t1.freelist.length + 2 := hsp
      have hent := (mappages_user_ok (by omega) hmap).1.ent
      obtain ⟨d', t', hrest, hsp'⟩ := @ih (v' + 1) d1 t1 (by omega) (by omega)
        (by omega) (fun u hu hu' => by
          simp only [userPages] at hvn
          rw [hent u (by omega), if_neg (by omega)]
          exact habs u (by omega) hu') (by omega)
      refine ⟨d', t', ?_, (hsp.trans hsp').mono (by omega)⟩
      rw [if_pos hlt, bind_of_ok hk]
      dsimp only
      rw [bind_of_ok (show fillPage mem 0 t = .ok ((), _) from rfl), bind_of_ok hmap]
      simp only [if_true]
      rw [show v' * PGSIZE + PGSIZE = (v' + 1) * PGSIZE by simp only [PGSIZE]; omega]
      exact hrest
    · rw [if_neg hlt]
      refine ⟨d, s, rfl, ?_⟩
      unfold Spends
      omega

end Vm
end Xv6
