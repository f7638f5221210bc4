import Xv6.Vm.Shrink
import Xv6.Vm.Total

/-!
# No lack of pages stops the kernel

The functions of `vm.c` meet a free list that may run out at any allocation.  This module
shows that they return all the same: every error path gives back pages that `kfree` accepts,
and no page is mapped twice.

* `Pool M s a`: the free pages and those counted by `a` are different pages of memory.  It is
  kept by whatever conserves pages.
* `Filled d sz`: exactly the user pages below `sz` are mapped.
-/

namespace Xv6
namespace Vm

open Lib Lib.Exec

/-- The pages on the free list and those counted by `a` are different pages of memory. -/
structure Pool (M : Machine) (s : Kmem) (a : Nat → Nat) : Prop where
  range : ∀ p, 0 < s.free p + a p → M.InRange p
  once : ∀ p, s.free p + a p ≤ 1

variable {M : Machine} {s s' : Kmem} {d d' : PageDir} {a b : Nat → Nat}

namespace Pool

theorem conserves (h : Pool M s a) (hc : Conserves s s' a b) : Pool M s' b := by
  constructor
  · intro p hp
    rw [hc.ledger p] at hp
    exact h.range p hp
  · intro p
    rw [hc.ledger p]
    exact h.once p

theorem mono (h : Pool M s a) (hle : ∀ p, b p ≤ a p) : Pool M s b := by
  constructor
  · intro p hp
    have := hle p
    exact h.range p (by omega)
  · intro p
    have := hle p
    have := h.once p
    omega

theorem free_le_one (h : Pool M s a) (p : Nat) : s.free p ≤ 1 := by
  have := h.once p
  omega

/-- A page that `kalloc` may return. -/
theorem inRange_of_free (h : Pool M s a) {p : Nat} (hp : 0 < s.free p) : M.InRange p :=
  h.range p (hp.trans_le (Nat.le_add_right _ _))

/-- A page that the directory maps below `KERNBASE`. -/
theorem inRange_of_present (h : Pool M s d.own) {u : Nat} (hu : u < userPages)
    (hp : (d.ent u).present = true) : M.InRange (d.ent u).ppn :=
  h.range _ (Nat.lt_of_lt_of_le (own_pos_of_present hu hp) (Nat.le_add_left _ _))

/-- A page table of the directory. -/
theorem inRange_of_table (h : Pool M s d.own) {i : Nat} (hi : i < NPDENTRIES) {t : PageTable}
    (ht : d.pde i = some t) : M.InRange t.page := by
  have hle : PageDir.tablePage (d.pde i) t.page ≤ d.tableCount t.page := by
    unfold PageDir.tableCount PageDir.tablesBelow
    exact le_sum_entry (f := fun j => PageDir.tablePage (d.pde j) t.page) (Finset.mem_range.mpr hi)
  rw [ht, PageDir.tablePage_some, single_self] at hle
  apply h.range
  simp only [PageDir.own]
  omega

/-- The page of the directory. -/
theorem inRange_of_dir (h : Pool M s d.own) : M.InRange d.page := by
  apply h.range
  simp only [PageDir.own, single_self]
  omega

/-- No page of the directory is free. -/
theorem free_eq_zero (h : Pool M s d.own) {u : Nat} (hu : u < userPages)
    (hp : (d.ent u).present = true) : s.free (d.ent u).ppn = 0 := by
  have := own_pos_of_present hu hp
  have := h.once (d.ent u).ppn
  omega

/-- No frame is mapped twice, or its page would belong to the directory twice. -/
theorem unshared (h : Pool M s d.own) : Unshared d := by
  intro u v hu hv hpu hpv hppn
  by_contra hne
  have hsum : (d.ent u).count (d.ent u).ppn + (d.ent v).count (d.ent u).ppn ≤
      d.userCount (d.ent u).ppn :=
    add_le_sum_entries (f := fun w => (d.ent w).count (d.ent u).ppn)
      (Finset.mem_range.mpr hu) (Finset.mem_range.mpr hv) hne
  rw [Pte.count_of_present hpu, Pte.count_of_present hpv, ← hppn, single_self] at hsum
  have := h.once (d.ent u).ppn
  simp only [PageDir.own] at this
  omega

end Pool

/-! ### Giving pages back -/

theorem kfree_ends {page : Nat} (h : M.InRange page) : Ends (kfree M page) s :=
  ⟨_, kfree_of_inRange h s⟩

theorem deallocuvm_ends {oldsz newsz : Nat} (hold : oldsz ≤ KERNBASE) (h : Pool M s d.own) :
    Ends (deallocuvm M d oldsz newsz) s := by
  by_cases hlt : newsz < oldsz
  · have hframes : ∀ p ∈ d.frames (newsz / PGSIZE) (span oldsz newsz), M.InRange p := by
      intro p hp
      obtain ⟨u, -, hhi, hpres, rfl⟩ := mem_frames.mp hp
      rw [add_span hlt] at hhi
      have htop := pagesTo_le hold
      exact h.inRange_of_present (hhi.trans_le htop) hpres
    obtain ⟨d', s', hrun, -⟩ := deallocuvm_shrinks (s := s) hlt hold hframes
    exact ⟨_, hrun⟩
  · unfold deallocuvm
    rw [if_pos (Nat.le_of_not_lt hlt)]
    exact Ends.pure _

theorem freeTables_ends {n : Nat} (h : ∀ i, i < n → ∀ t, d.pde i = some t → M.InRange t.page) :
    Ends (freeTables M d n) s := by
  induction n with
  | zero => exact Ends.pure _
  | succ n ih =>
    refine Ends.bind (ih fun i hi => h i (Nat.lt_succ_of_lt hi)) fun _ t _ => ?_
    cases hpde : d.pde n with
    | none => exact Ends.pure _
    | some pt => exact kfree_ends (h n (Nat.lt_succ_self n) pt hpde)

/-- A directory can be given back. -/
theorem freevm_ends (h : Pool M s d.own) : Ends (freevm M d) s := by
  refine Ends.bind (deallocuvm_ends le_rfl h) ?_
  rintro ⟨d1, r⟩ t hdealloc
  have hpool : Pool M t d1.own := by
    rcases deallocuvm_ok (by decide) (fun _ => .inl le_rfl) hdealloc with
      ⟨-, -, rfl, rfl⟩ | ⟨-, -, hrel⟩
    · exact h
    · exact h.conserves hrel.conserves
  refine Ends.bind (freeTables_ends fun i hi t ht => hpool.inRange_of_table hi ht) ?_
  intro _ t' _
  exact kfree_ends hpool.inRange_of_dir

/-! ### Mapping pages -/

theorem kalloc_ends : Ends kalloc s := by
  rcases kalloc_cases s with ⟨-, hrun⟩ | ⟨page, rest, -, hrun⟩
  · exact ⟨_, hrun⟩
  · exact ⟨_, hrun⟩

theorem walkpgdir_ends {va : Nat} {alloc : Bool} : Ends (walkpgdir d va alloc) s := by
  unfold walkpgdir
  cases d.pde (PDX va) with
  | some t => exact Ends.pure _
  | none =>
    cases alloc with
    | false => exact Ends.pure _
    | true =>
      refine Ends.bind kalloc_ends fun r t _ => ?_
      cases r with
      | none => exact Ends.pure _
      | some pgtab => exact Ends.bind (Ends.modify _) fun _ _ _ => Ends.pure _

/-- Pages that are not mapped yet can be mapped, or a page table cannot be had. -/
theorem mappagesLoop_ends {perm n : Nat} : ∀ {fuel v ppn : Nat} {d : PageDir} {s : Kmem},
    v + n < 2 ^ 20 → (∀ u, v ≤ u → u ≤ v + n → (d.ent u).present = false) →
      Ends (mappagesLoop perm ((v + n) * PGSIZE) fuel d (v * PGSIZE) ppn) s := by
  -- by induction on the number of pages after this one
  induction n with
  | zero =>
    intro fuel v ppn d s hv habs
    cases fuel with
    | zero => exact Ends.pure _
    | succ fuel =>
      refine Ends.bind walkpgdir_ends ?_
      rintro ⟨d1, found⟩ t hwalk
      have hw := walkpgdir_ok hwalk
      have hp := hw.absent (by omega) (habs v le_rfl (by omega))
      refine Ends.ite (fun _ => ?_) fun _ => Ends.pure _
      dsimp only
      rw [hp, if_neg Bool.false_ne_true, if_pos (by rw [Nat.add_zero])]
      exact Ends.pure _
  | succ n ih =>
    intro fuel v ppn d s hv habs
    cases fuel with
    | zero => exact Ends.pure _
    | succ fuel =>
      refine Ends.bind walkpgdir_ends ?_
      rintro ⟨d1, found⟩ t hwalk
      have hw := walkpgdir_ok hwalk
      have hp := hw.absent (by omega) (habs v le_rfl (by omega))
      refine Ends.ite (fun hfound => ?_) fun _ => Ends.pure _
      have hne : v * PGSIZE ≠ (v + (n + 1)) * PGSIZE := page_ne (by omega)
      dsimp only
      rw [hp, if_neg Bool.false_ne_true, if_neg hne, next_page (by omega),
        show v + (n + 1) = v + 1 + n by omega]
      apply ih (by omega)
      intro u hlo hhi
      rw [PageDir.ent_setPte d1 _ (by omega) (hw.found hfound), vpn_mul_PGSIZE (by omega),
        if_neg (by omega), hw.ent]
      exact habs u (by omega) (by omega)

theorem mappages_user_ends {v ppn perm : Nat} (hv : v < userPages)
    (habs : (d.ent v).present = false) : Ends (mappages d (v * PGSIZE) PGSIZE ppn perm) s := by
  have hv20 : v < 2 ^ 20 := by
    simp only [userPages] at hv
    omega
  rw [mappages_page d (by omega)]
  apply mappagesLoop_ends (n := 0) (by omega)
  intro u hlo hhi
  rw [show u = v by omega]
  exact habs

/-! ### The kernel half -/

theorem mappages_row_ends {k : Kmap} {r : Row} (hr : r.Fits k)
    (habs : ∀ u, r.v ≤ u → u ≤ r.v + r.n → (d.ent u).present = false) :
    Ends (mappages d k.virt (toUint ((k.physEnd : Int) - k.physStart)) (k.physStart / PGSIZE)
      k.perm) s := by
  rw [hr.virt, hr.size, hr.ppn, hr.perm]
  unfold mappages
  rw [last_page hr.virt_lt, PGROUNDDOWN_page]
  exact mappagesLoop_ends hr.virt_lt habs

/-- Rows that do not overlap are mapped, or what was mapped is given back. -/
theorem mapKernel_ends {ks : List Kmap} {rs : List Row}
    (hfits : List.Forall₂ (fun k r => r.Fits k) ks rs)
    (hdisj : rs.Pairwise fun r r' => r.v + r.n < r'.v ∨ r'.v + r'.n < r.v)
    {d : PageDir} {s : Kmem} (hpool : Pool M s d.own)
    (habs : ∀ r ∈ rs, ∀ u, r.v ≤ u → u ≤ r.v + r.n → (d.ent u).present = false) :
    Ends (mapKernel M ks d) s := by
  induction hfits generalizing d s with
  | nil => exact Ends.pure _
  | @cons k r ks rs hrow hrows ih =>
    obtain ⟨hhead, htail⟩ := List.pairwise_cons.mp hdisj
    refine Ends.bind (mappages_row_ends hrow (habs r List.mem_cons_self)) ?_
    rintro ⟨d1, mapped⟩ t hmap
    obtain ⟨hcons, hent⟩ := mappages_row_ok hrow hmap
    have hpool1 := hpool.conserves hcons
    cases mapped with
    | false => exact Ends.bind (freevm_ends hpool1) fun _ _ _ => Ends.pure _
    | true =>
      apply ih htail hpool1
      intro r' hr' u hlo hhi
      have hlt := Row.virt_lt_of_fits hrows r' hr'
      have hapart := hhead r' hr'
      rw [hent rfl u (by omega), Row.overlay, if_neg (by omega)]
      exact habs r' (List.mem_cons_of_mem r hr') u hlo hhi

theorem setupkvm_ends (hpool : Pool M s nothing) : Ends (setupkvm M) s := by
  refine Ends.bind kalloc_ends fun q t hk => ?_
  cases q with
  | none => exact Ends.pure _
  | some page =>
    refine Ends.bind (Ends.modify _) fun _ t' hfill => ?_
    have hstart : Conserves s t' nothing (PageDir.empty page).own := by
      refine ((kalloc_some hk).1.trans (fillPage_conserves hfill (by simp))).congr
        (fun _ => rfl) fun p => PageDir.own_empty page p
    have htop : ¬P2V PHYSTOP > DEVSPACE := by decide
    rw [if_neg htop]
    exact mapKernel_ends (rows_fit M) (rows_disjoint M) (hpool.conserves hstart)
      fun _ _ _ _ _ => by simp

/-! ### User memory -/

/-- The loop of `allocuvm` over pages that are not mapped. -/
theorem allocLoop_ends {oldsz newsz : Nat} (hnew : newsz < KERNBASE) :
    ∀ {fuel v : Nat} {d : PageDir} {s : Kmem}, pagesTo newsz - v < fuel → Pool M s d.own →
      (∀ u, v ≤ u → u * PGSIZE < newsz → (d.ent u).present = false) →
      Ends (allocLoop M oldsz newsz fuel d (v * PGSIZE)) s := by
  intro fuel
  induction fuel with
  | zero =>
    intro v d s hfuel
    exact absurd hfuel (Nat.not_lt_zero _)
  | succ fuel ih =>
    intro v d s hfuel hpool habs
    refine Ends.ite (fun hlt => ?_) fun _ => Ends.pure _
    have hv : v < userPages := by
      simp only [PGSIZE, KERNBASE, userPages] at *
      omega
    refine Ends.bind kalloc_ends fun q t hk => ?_
    cases q with
    | none =>
      obtain rfl := kalloc_none hk
      exact Ends.bind (deallocuvm_ends hnew.le hpool) fun _ _ _ => Ends.pure _
    | some mem =>
      refine Ends.bind (Ends.modify _) fun _ t1 hfill => ?_
      have htaken := Taken.of_fill hk hfill
      refine Ends.bind (mappages_user_ends hv (habs v le_rfl hlt)) ?_
      rintro ⟨d1, mapped⟩ t2 hmap
      have hm := (mappages_user_ok hv hmap).1
      cases mapped with
      | true =>
        have hnext : v * PGSIZE + PGSIZE = (v + 1) * PGSIZE := by
          simp only [PGSIZE]
          omega
        show Ends (allocLoop M oldsz newsz fuel d1 (v * PGSIZE + PGSIZE)) t2
        rw [hnext]
        apply ih (by rw [← lt_pagesTo] at hlt; omega) (hpool.conserves (htaken.mapped hv hmap).1.conserves)
        intro u hlo hu
        have hu20 : u < 2 ^ 20 := by
          simp only [PGSIZE, KERNBASE] at *
          omega
        rw [hm.ent u hu20, if_neg (by omega)]
        exact habs u (by omega) hu
      | false =>
        have hgrown := hpool.conserves (htaken.unmapped hv hmap).conserves
        refine Ends.bind (deallocuvm_ends hnew.le (hgrown.mono fun p => Nat.le_add_right _ _)) ?_
        intro _ _ _
        exact Ends.bind (kfree_ends (hpool.inRange_of_free htaken.pos)) fun _ _ _ => Ends.pure _

end Vm
end Xv6
