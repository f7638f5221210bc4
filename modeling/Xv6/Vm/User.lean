import Xv6.Vm.Image
import Xv6.Vm.Space

/-!
# User memory

The functions that give pages to the user half of a directory: `allocuvm`, the
page-fault path of `trap`, `copyuvm`, and the image built by `exec`.  Each is
described by how pages change hands; for the fault path and `copyuvm` also by the
contents of the pages mapped, which is what demand paging and `fork` are about.
-/

namespace Xv6
namespace Vm

open Lib Lib.Exec Function

variable {M : Machine} {s s' : Kmem} {d d' : PageDir}

/-- Two directories agree above `KERNBASE`. -/
def SameKernel (d d' : PageDir) : Prop :=
  ∀ u, userPages ≤ u → u < 2 ^ 20 → d'.ent u = d.ent u

theorem SameKernel.refl (d : PageDir) : SameKernel d d := fun _ _ _ => rfl

theorem SameKernel.trans {d1 d2 d3 : PageDir} (h1 : SameKernel d1 d2) (h2 : SameKernel d2 d3) :
    SameKernel d1 d3 := fun u hu hu' => (h2 u hu hu').trans (h1 u hu hu')

theorem SameKernel.kernelHalf (h : SameKernel d d') (hd : KernelHalf M d) : KernelHalf M d' :=
  fun u hu hu' => (h u hu hu').trans (hd u hu hu')

variable {newsz oldsz page r v : Nat}

theorem Released.sameKernel (h : Released d d' v oldsz s s') :
    SameKernel d d' := by
  intro u hu hu'
  rw [h.ent u hu', if_neg]
  rintro ⟨hvu, hlt, hp⟩
  have := h.user u hvu hu' hlt hp
  omega

theorem Mapped.sameKernel {e : Pte} {mapped : Bool} (h : Mapped d d' v e mapped)
    (hv : v < userPages) : SameKernel d d' := by
  intro u hu hu'
  rw [h.ent u hu', if_neg]
  rintro ⟨rfl, -⟩
  omega

/-- A page mapped below `KERNBASE` belongs to the directory. -/
theorem own_pos_of_present (hv : v < userPages) (hp : (d.ent v).present = true) :
    0 < d.own (d.ent v).ppn := by
  have hle : (d.ent v).count (d.ent v).ppn ≤ d.userCount (d.ent v).ppn :=
    le_sum_entry (f := fun u => (d.ent u).count (d.ent v).ppn) (Finset.mem_range.mpr hv)
  rw [Pte.count_of_present hp, single_self] at hle
  simp only [PageDir.own]
  omega

theorem writeBytes_conserves {off : Nat} {bs : List UInt8} {u : Unit} {a : Nat → Nat}
    (h : writeBytes page off bs s = .ok (u, s')) (ha : 0 < a page) : Conserves s s' a a := by
  cases h
  exact conserves_of_update rfl rfl ha

/-! ## A fresh page -/

/-- The page `mem` was taken from the free list and filled with `f`. -/
structure Taken (s t : Kmem) (mem : Nat) (f : Nat → UInt8) : Prop where
  free : ∀ p, s.free p = t.free p + single mem p
  mem : t.mem = update s.mem mem f

namespace Taken

variable {t : Kmem} {mem : Nat} {f : Nat → UInt8}

theorem pos (h : Taken s t mem f) : 0 < s.free mem := by
  have := h.free mem
  simp only [single_self] at this
  omega

theorem ne (h : Taken s t mem f) {p : Nat} (hp : s.free p = 0) : p ≠ mem := by
  rintro rfl
  have := h.pos
  omega

theorem grows (h : Taken s t mem f) (a : Nat → Nat) :
    Grows s t a fun p => a p + single mem p := by
  refine ⟨single mem, ⟨fun p => ?_, fun p hp _ => ?_⟩, fun _ => rfl⟩
  · have := h.free p
    simp only [nothing]
    omega
  · rw [h.mem, update_of_ne (h.ne hp)]

theorem of_kalloc {t0 : Kmem} (hk : kalloc s = .ok (some mem, t0))
    (hfree : t.freelist = t0.freelist) (hmem : t.mem = update t0.mem mem f) :
    Taken s t mem f := by
  obtain ⟨hc, hkmem⟩ := kalloc_some hk
  refine ⟨fun p => ?_, by rw [hmem, hkmem]⟩
  have := hc.ledger p
  simp only [Kmem.free, hfree, nothing] at *
  omega

theorem of_fill {t0 : Kmem} {c : UInt8} {u : Unit} (hk : kalloc s = .ok (some mem, t0))
    (hfill : fillPage mem c t0 = .ok (u, t)) : Taken s t mem fun _ => c :=
  of_kalloc hk (fillPage_ok hfill).1 (fillPage_ok hfill).2

variable {v perm : Nat} {t2 : Kmem}

/-- Once mapped, the page belongs to the directory, with its contents. -/
theorem mapped (h : Taken s t mem f) (hv : v < userPages)
    (hmap : mappages d (v * PGSIZE) PGSIZE mem perm t = .ok ((d', true), t2)) :
    Grows s t2 d.own d'.own ∧ ((∀ p, s.free p ≤ 1) → t2.free mem = 0 ∧ t2.mem mem = f) := by
  have hg := (mappages_user_ok hv hmap).2
  simp only [if_true] at hg
  refine ⟨(h.grows d.own).trans hg, fun hnodup => ?_⟩
  have hfree := h.free mem
  have hone := hnodup mem
  simp only [single_self] at hfree
  have hle := hg.free_le mem
  exact ⟨by omega, by rw [hg.mem (by omega), h.mem, update_self]⟩

/-- If there is no page table for it, the page is still to be given away. -/
theorem unmapped (h : Taken s t mem f) (hv : v < userPages)
    (hmap : mappages d (v * PGSIZE) PGSIZE mem perm t = .ok ((d', false), t2)) :
    Grows s t2 d.own fun p => d'.own p + single mem p := by
  have hg := (mappages_user_ok hv hmap).2
  simp only [Bool.false_eq_true, if_false] at hg
  exact (h.grows d.own).trans ((hg.congr (fun _ => by simp) fun _ => rfl).carry (single mem))

end Taken

/-- Giving a page back. -/
theorem kfree_conserves_add {u : Unit} {a : Nat → Nat}
    (h : kfree M page s = .ok (u, s')) : Conserves s s' (fun p => a p + single page p) a := by
  refine ((kfree_conserves h).carry a).congr (fun p => ?_) fun p => ?_
  · omega
  · simp [nothing]

/-! ## `allocuvm` -/

/-- What allocating user memory did, whether it succeeded (`r ≠ 0`) or not. -/
structure Allocated (d d' : PageDir) (v newsz r : Nat) (s s' : Kmem) : Prop where
  conserves : Conserves s s' d.own d'.own
  sameKernel : SameKernel d d'
  keeps : r ≠ 0 → ∀ u, u < 2 ^ 20 → (d.ent u).present = true → d'.ent u = d.ent u
  covers : r ≠ 0 → ∀ u, v ≤ u → u * PGSIZE < newsz → (d'.ent u).present = true
  outside : r ≠ 0 → ∀ u, u < 2 ^ 20 → u < v ∨ newsz ≤ u * PGSIZE → d'.ent u = d.ent u
  result : r ≠ 0 → r = newsz

/-- The error exits of `allocuvm` release pages below `KERNBASE`. -/
theorem deallocuvm_user (hold : oldsz < KERNBASE)
    (h : deallocuvm M d oldsz newsz s = .ok ((d', r), s')) :
    Conserves s s' d.own d'.own ∧ SameKernel d d' := by
  rcases deallocuvm_ok (by simp only [KERNBASE] at hold; omega) (fun _ => .inl hold.le) h with
    ⟨-, -, rfl, rfl⟩ | ⟨-, -, hrel⟩
  · exact ⟨Conserves.refl _ _, SameKernel.refl _⟩
  · exact ⟨hrel.conserves, hrel.sameKernel⟩

/-- What a turn of the loop did: it was at the end, it gave up for want of a page or of a page table,
or it mapped a page and went on. -/
inductive AllocTurn (M : Machine) (oldsz newsz fuel : Nat) (d : PageDir) (v : Nat) (s : Kmem) :
    PageDir → Nat → Kmem → Prop
  | done (hge : newsz ≤ v * PGSIZE) : AllocTurn M oldsz newsz fuel d v s d newsz s
  | noPage {d' : PageDir} {r : Nat} {s' : Kmem} (hlt : v * PGSIZE < newsz)
      (hdealloc : deallocuvm M d newsz oldsz s = .ok ((d', r), s')) :
      AllocTurn M oldsz newsz fuel d v s d' 0 s'
  | noTable {d1 d' : PageDir} {mem r : Nat} {t t1 t2 s' : Kmem} (hlt : v * PGSIZE < newsz)
      (htaken : Taken s t mem fun _ => 0)
      (hmap : mappages d (v * PGSIZE) PGSIZE mem (PTE_W ||| PTE_U) t = .ok ((d1, false), t1))
      (hdealloc : deallocuvm M d1 newsz oldsz t1 = .ok ((d', r), t2))
      (hfree : kfree M mem t2 = .ok ((), s')) : AllocTurn M oldsz newsz fuel d v s d' 0 s'
  | mapped {d1 d' : PageDir} {mem r : Nat} {t t1 s' : Kmem} (hlt : v * PGSIZE < newsz)
      (htaken : Taken s t mem fun _ => 0)
      (hmap : mappages d (v * PGSIZE) PGSIZE mem (PTE_W ||| PTE_U) t = .ok ((d1, true), t1))
      (hrest : allocLoop M oldsz newsz fuel d1 ((v + 1) * PGSIZE) t1 = .ok ((d', r), s')) :
      AllocTurn M oldsz newsz fuel d v s d' r s'

theorem allocLoop_turn {fuel v : Nat}
    (h : allocLoop M oldsz newsz (fuel + 1) d (v * PGSIZE) s = .ok ((d', r), s')) :
    AllocTurn M oldsz newsz fuel d v s d' r s' := by
  unfold allocLoop at h
  by_cases hlt : v * PGSIZE < newsz
  · rw [if_pos hlt] at h
    obtain ⟨q, t, hk, h⟩ := bind_eq_ok.mp h
    cases q with
    | none =>
      obtain ⟨_, t1, hdealloc, h⟩ := bind_eq_ok.mp h
      cases h
      obtain rfl := kalloc_none hk
      exact .noPage hlt hdealloc
    | some mem =>
      simp only [bind_eq_ok] at h
      obtain ⟨_, t1, hfill, ⟨d1, mapped⟩, t2, hmap, h⟩ := h
      have htaken := Taken.of_fill hk hfill
      cases mapped with
      | true =>
        simp only [if_true, ← Nat.succ_mul] at h
        exact .mapped hlt htaken hmap h
      | false =>
        simp only [Bool.false_eq_true, if_false, bind_eq_ok] at h
        obtain ⟨_, t3, hdealloc, _, t4, hfree, h⟩ := h
        cases h
        exact .noTable hlt htaken hmap hdealloc hfree
  · rw [if_neg hlt] at h
    cases h
    exact .done (Nat.not_lt.mp hlt)

theorem page_lt_userPages {v : Nat} (hnew : newsz < KERNBASE) (hlt : v * PGSIZE < newsz) :
    v < userPages := by
  simp only [PGSIZE, KERNBASE, userPages] at *
  omega

/-- A turn that gives up. -/
theorem Allocated.gaveUp {v : Nat} (hc : Conserves s s' d.own d'.own) (hsk : SameKernel d d') :
    Allocated d d' v newsz 0 s s' :=
  ⟨hc, hsk, fun hr => absurd rfl hr, fun hr => absurd rfl hr, fun hr => absurd rfl hr,
    fun hr => absurd rfl hr⟩

theorem allocLoop_ok (hnew : newsz < KERNBASE) :
    ∀ {fuel v : Nat} {d : PageDir} {s : Kmem},
      allocLoop M oldsz newsz fuel d (v * PGSIZE) s = .ok ((d', r), s') →
      Allocated d d' v newsz r s s' := by
  intro fuel
  induction fuel with
  | zero =>
    intro v d s h
    cases h
  | succ fuel ih =>
    intro v d s h
    cases allocLoop_turn h with
    | done hge =>
      refine ⟨Conserves.refl _ _, SameKernel.refl _, fun _ _ _ _ => rfl, fun _ u hvu hu => ?_,
        fun _ _ _ _ => rfl, fun _ => rfl⟩
      simp only [PGSIZE] at hge hu
      omega
    | noPage hlt hdealloc =>
      obtain ⟨hc, hsk⟩ := deallocuvm_user hnew hdealloc
      exact .gaveUp hc hsk
    | @noTable _ _ mem _ _ _ _ _ hlt htaken hmap hdealloc hfree =>
      have hv := page_lt_userPages hnew hlt
      obtain ⟨hc, hsk⟩ := deallocuvm_user hnew hdealloc
      refine .gaveUp ?_ (((mappages_user_ok hv hmap).1.sameKernel hv).trans hsk)
      exact ((htaken.unmapped hv hmap).conserves.trans (hc.carry (single mem))).trans
        (kfree_conserves_add hfree)
    | @mapped d1 _ mem _ _ _ _ hlt htaken hmap hrest =>
      have hv := page_lt_userPages hnew hlt
      have hm := (mappages_user_ok hv hmap).1
      have hrest := ih hrest
      refine ⟨(htaken.mapped hv hmap).1.conserves.trans hrest.conserves,
        (hm.sameKernel hv).trans hrest.sameKernel, fun hr u hu hp => ?_,
        fun hr u hvu hu => ?_, fun hr u hu hout => ?_, hrest.result⟩
      · have hne : u ≠ v := by
          rintro rfl
          have := hm.absent rfl
          rw [hp] at this
          cases this
        have hent : d1.ent u = d.ent u := by
          rw [hm.ent u hu, if_neg fun hc => hne hc.1]
        rw [hrest.keeps hr u hu (by rw [hent]; exact hp), hent]
      · by_cases huv : u = v
        · subst huv
          have hu' : u < 2 ^ 20 := Nat.lt_trans hv (by decide)
          have hp : (d1.ent u).present = true := by
            rw [hm.ent u hu', if_pos ⟨rfl, rfl⟩]
            exact Pte.present_or_P _ _
          rw [hrest.keeps hr u hu' hp]
          exact hp
        · exact hrest.covers hr u (by omega) hu
      · have hne : u ≠ v := by
          rintro rfl
          omega
        rw [hrest.outside hr u hu (by omega), hm.ent u hu, if_neg fun hc => hne hc.1]

/-- The size `allocuvm` returns when it succeeds. -/
theorem allocuvm_ok (hold : oldsz < KERNBASE) (h : allocuvm M d oldsz newsz s = .ok ((d', r), s')) :
    Conserves s s' d.own d'.own ∧ SameKernel d d' ∧ (r ≠ 0 → r < KERNBASE ∧ oldsz ≤ r ∧ newsz ≤ r ∧
        (∀ u, u < 2 ^ 20 → (d.ent u).present = true → d'.ent u = d.ent u) ∧
        (∀ u, oldsz ≤ u * PGSIZE → u * PGSIZE < r → (d'.ent u).present = true) ∧
        ∀ u, u < 2 ^ 20 → u * PGSIZE < oldsz ∨ r ≤ u * PGSIZE → d'.ent u = d.ent u) := by
  unfold allocuvm at h
  by_cases hhigh : newsz ≥ KERNBASE
  · rw [if_pos hhigh] at h
    cases h
    exact ⟨Conserves.refl _ _, SameKernel.refl _, fun hr => (hr rfl).elim⟩
  · rw [if_neg hhigh] at h
    by_cases hlt : newsz < oldsz
    · rw [if_pos hlt] at h
      cases h
      exact ⟨Conserves.refl _ _, SameKernel.refl _, fun _ => ⟨hold, le_rfl, hlt.le,
        fun _ _ _ => rfl, fun u hu hu' => by omega, fun _ _ _ => rfl⟩⟩
    · rw [if_neg hlt, PGROUNDUP] at h
      have hall := allocLoop_ok (by omega) h
      refine ⟨hall.conserves, hall.sameKernel, fun hr => ?_⟩
      obtain rfl := hall.result hr
      refine ⟨by omega, by omega, le_rfl, hall.keeps hr, fun u hu hu' => ?_, fun u hu hout => ?_⟩
      · refine hall.covers hr u ?_ hu'
        simp only [PGSIZE, KERNBASE] at *
        omega
      · refine hall.outside hr u hu ?_
        simp only [PGSIZE, KERNBASE] at *
        omega

/-- The page `inituvm` fills belongs to the directory when it could be mapped;
otherwise it is lost, for the result of `mappages` is not looked at. -/
theorem inituvm_ok {init : List UInt8} (h : inituvm d init s = .ok (d', s')) :
    ∃ mem mapped, Mapped d d' 0 ⟨mem, (PTE_W ||| PTE_U) ||| PTE_P⟩ mapped ∧
      Conserves s s' d.own fun p => d'.own p + if mapped = true then 0 else single mem p := by
  unfold inituvm at h
  by_cases hlen : init.length ≥ PGSIZE
  · rw [if_pos hlen] at h
    cases h
  · rw [if_neg hlen] at h
    obtain ⟨q, t, hk, h1⟩ := bind_eq_ok.mp h
    cases q with
    | none => cases h1
    | some mem =>
      simp only [bind_eq_ok] at h1
      obtain ⟨_, t1, hfill, ⟨d1, mapped⟩, t2, hmap, _, t3, hwrite, h2⟩ := h1
      cases h2
      rw [← Nat.zero_mul PGSIZE] at hmap
      have htaken := Taken.of_fill hk hfill
      have hv : 0 < userPages := by decide
      refine ⟨mem, mapped, (mappages_user_ok hv hmap).1, ?_⟩
      have hgrown : Grows s t2 d.own fun p =>
          d1.own p + if mapped = true then 0 else single mem p := by
        cases mapped with
        | true => simpa using (htaken.mapped hv hmap).1
        | false => simpa using htaken.unmapped hv hmap
      -- The page was free when the call began, so writing to it disturbs no one.
      cases hwrite
      refine ⟨hgrown.conserves.ledger, fun p hp hd => ?_⟩
      have hne : p ≠ mem := htaken.ne hp
      change update t2.mem mem _ p = s.mem p
      rw [update_of_ne hne]
      exact hgrown.conserves.frame p hp hd

/-! ## Demand paging -/

/-- What serving a page fault at virtual page `v` did. -/
structure Faulted (d d' : PageDir) (v : Nat) (mapped : Bool) (s s' : Kmem) : Prop where
  conserves : Conserves s s' d.own d'.own
  sameKernel : SameKernel d d'
  quiet : ∀ p, s.free p = 0 → s'.mem p = s.mem p
  other : ∀ u, u < 2 ^ 20 → u ≠ v → d'.ent u = d.ent u
  refused : mapped = false → d'.ent v = d.ent v

theorem faultPage_ok {mapped : Bool} (hv : v < userPages)
    (h : faultPage M d (v * PGSIZE) s = .ok ((d', mapped), s')) :
    Faulted d d' v mapped s s' := by
  have hv' : v < 2 ^ 20 := by
    simp only [userPages] at hv
    omega
  unfold faultPage at h
  obtain ⟨q, t, hk, h1⟩ := bind_eq_ok.mp h
  cases q with
  | none =>
    cases h1
    obtain rfl := kalloc_none hk
    exact ⟨Conserves.refl _ _, SameKernel.refl _, fun _ _ => rfl, fun _ _ _ => rfl, fun _ => rfl⟩
  | some mem =>
    simp only [bind_eq_ok] at h1
    obtain ⟨_, t1, hfill, ⟨d1, m⟩, t2, hmap, h2⟩ := h1
    have htaken := Taken.of_fill hk hfill
    have hm := (mappages_user_ok hv hmap).1
    have hother : ∀ u, u < 2 ^ 20 → u ≠ v → d1.ent u = d.ent u := fun u hu hne => by
      rw [hm.ent u hu, if_neg fun hc => hne hc.1]
    cases m with
    | true =>
      simp only [if_true] at h2
      cases h2
      have hg := (htaken.mapped hv hmap).1
      exact ⟨hg.conserves, hm.sameKernel hv, fun p => hg.mem, hother, fun h => Bool.noConfusion h⟩
    | false =>
      simp only [Bool.false_eq_true, if_false, bind_eq_ok] at h2
      obtain ⟨_, t3, hkf, h3⟩ := h2
      cases h3
      have hg := htaken.unmapped hv hmap
      refine ⟨hg.conserves.trans (kfree_conserves_add hkf), hm.sameKernel hv, fun p hp => ?_,
        hother, fun _ => ?_⟩
      · rw [(kfree_ok hkf).2.2, update_of_ne (htaken.ne hp), hg.mem hp]
      · rw [hm.ent v hv', if_neg (by simp)]

/-! ## `copyuvm` -/

theorem Pte.flags_or_P {e : Pte} (h : e.present = true) : e.flags ||| PTE_P = e.flags := by
  have hodd : e.flags % 2 = 1 := by
    simp only [Pte.present, PTE_P, Nat.and_one_is_mod] at h
    have := Nat.mod_two_eq_zero_or_one e.flags
    rcases this with h0 | h1
    · simp [h0] at h
    · exact h1
  apply Nat.eq_of_testBit_eq
  intro i
  rw [Nat.testBit_or]
  cases i with
  | zero => simp [PTE_P, Nat.testBit_zero, hodd]
  | succ i => simp [PTE_P, Nat.testBit_succ]

/-- The user pages from `lo` on have been copied into `child`, on pages of its own. -/
def CopiedFrom (lo : Nat) (parent child old : PageDir) (s s' : Kmem) : Prop :=
  ∀ u, lo ≤ u → u < userPages → ((parent.ent u).present = false ∧ child.ent u = old.ent u) ∨
    ((parent.ent u).present = true ∧ (child.ent u).flags = (parent.ent u).flags ∧
      0 < s.free (child.ent u).ppn ∧ s'.mem (child.ent u).ppn = s.mem (parent.ent u).ppn)

/-- What a turn of the loop did with page `v`: the parent does not have it, there was no page for the
copy or none for its page table, or it was copied. -/
inductive CopyTurn (M : Machine) (parent : PageDir) (v n : Nat) (d : PageDir) (s : Kmem) :
    Option PageDir → Kmem → Prop
  | skipped {r : Option PageDir} {s' : Kmem} (hp : (parent.ent v).present = false)
      (hrest : copyLoop M parent n d s = .ok (r, s')) : CopyTurn M parent v n d s r s'
  | noPage {s' : Kmem} (hp : (parent.ent v).present = true) (hnil : s.freelist = [])
      (hfree : freevm M d s = .ok ((), s')) : CopyTurn M parent v n d s none s'
  | noTable {d1 : PageDir} {mem : Nat} {t t1 s' : Kmem} (hp : (parent.ent v).present = true)
      (htaken : Taken s t mem (s.mem (parent.ent v).ppn))
      (hlen : s.freelist.length = t.freelist.length + 1)
      (hmap : mappages d (v * PGSIZE) PGSIZE mem (parent.ent v).flags t = .ok ((d1, false), t1))
      (hfree : freevm M d1 t1 = .ok ((), s')) : CopyTurn M parent v n d s none s'
  | copied {r : Option PageDir} {d1 : PageDir} {mem : Nat} {t t1 s' : Kmem}
      (hp : (parent.ent v).present = true) (htaken : Taken s t mem (s.mem (parent.ent v).ppn))
      (hlen : s.freelist.length = t.freelist.length + 1)
      (hmap : mappages d (v * PGSIZE) PGSIZE mem (parent.ent v).flags t = .ok ((d1, true), t1))
      (hrest : copyLoop M parent n d1 t1 = .ok (r, s')) : CopyTurn M parent v n d s r s'

theorem copyLoop_turn {parent : PageDir} {n : Nat} {r : Option PageDir} (hv : v < userPages)
    (hn : v = userPages - (n + 1)) (h : copyLoop M parent (n + 1) d s = .ok (r, s')) :
    CopyTurn M parent v n d s r s' := by
  unfold copyLoop at h
  have hpte : parent.pte (v * PGSIZE) = parent.ent v := by
    rw [PageDir.pte_eq_ent, vpn_mul_PGSIZE (Nat.lt_trans hv (by decide))]
  rw [← hn, bind_of_ok (walkpgdir_noalloc parent (v * PGSIZE) s), hpte] at h
  simp only [walk_present hpte] at h
  cases hp : (parent.ent v).present with
  | false =>
    rw [hp] at h
    exact .skipped hp h
  | true =>
    rw [if_pos hp] at h
    rcases kalloc_cases s with ⟨hnil, hk⟩ | ⟨mem, rest, hcons, hk⟩
    · rw [bind_of_ok hk] at h
      obtain ⟨_, t1, hfree, hret⟩ := bind_eq_ok.mp h
      cases hret
      exact .noPage hp hnil hfree
    · rw [bind_of_ok hk] at h
      simp only [bind_eq_ok] at h
      obtain ⟨_, t, hcopy, ⟨d1, mapped⟩, t1, hmap, h⟩ := h
      obtain ⟨hfree, hmem⟩ : t.freelist = rest ∧
          t.mem = update s.mem mem (s.mem (parent.ent v).ppn) := by
        cases hcopy
        exact ⟨rfl, rfl⟩
      have htaken := Taken.of_kalloc hk hfree hmem
      have hlen : s.freelist.length = t.freelist.length + 1 := by rw [hcons, hfree, List.length_cons]
      cases mapped with
      | false =>
        simp only [Bool.false_eq_true, if_false, bind_eq_ok] at h
        obtain ⟨_, t2, hfree, hret⟩ := h
        cases hret
        exact .noTable hp htaken hlen hmap hfree
      | true => exact .copied hp htaken hlen hmap h

theorem copyLoop_ok {parent : PageDir} {r : Option PageDir} :
    ∀ {n : Nat} {d : PageDir} {s : Kmem}, n ≤ userPages → (∀ p, s.free p ≤ 1) →
      (∀ u, u < userPages → (parent.ent u).present = true → s.free (parent.ent u).ppn = 0) →
      copyLoop M parent n d s = .ok (r, s') →
      (∃ d', r = some d' ∧ Grows s s' d.own d'.own ∧ SameKernel d d' ∧
        (∀ u, u < userPages - n → d'.ent u = d.ent u) ∧
        CopiedFrom (userPages - n) parent d' d s s') ∨
      (r = none ∧ ∃ lost, Conserves s s' d.own lost) := by
  -- by induction on the number of pages still to be visited
  intro n
  induction n with
  | zero =>
    intro d s _ _ _ h
    cases h
    exact .inl ⟨d, rfl, Grows.refl _ _, SameKernel.refl _, fun _ _ => rfl,
      fun u hu hu' => by omega⟩
  | succ n ih =>
    intro d s hn hnodup hpar h
    obtain ⟨v, hv⟩ : ∃ v, v = userPages - (n + 1) := ⟨_, rfl⟩
    have hvu : v < userPages := by omega
    rw [← hv]
    cases copyLoop_turn hvu hv h with
    | skipped hp hrest =>
      rcases ih (by omega) hnodup hpar hrest with ⟨d', hr, hg, hsk, hlow, hcopy⟩ | hfail
      · refine .inl ⟨d', hr, hg, hsk, fun u hu => hlow u (by omega), fun u hu hu' => ?_⟩
        by_cases huv : u = v
        · subst huv
          exact .inl ⟨hp, hlow u (by omega)⟩
        · exact hcopy u (by omega) hu'
      · exact .inr hfail
    | noPage hp hnil hfree => exact .inr ⟨rfl, nothing, freevm_ok hfree⟩
    | @noTable _ mem _ _ _ hp htaken hlen hmap hfree =>
      refine .inr ⟨rfl, single mem, (htaken.unmapped hvu hmap).conserves.trans ?_⟩
      exact ((freevm_ok hfree).carry (single mem)).congr (fun _ => rfl) fun p => by simp [nothing]
    | @copied _ d1 mem _ t1 _ hp htaken hlen hmap hrest =>
      have hm := (mappages_user_ok hvu hmap).1
      obtain ⟨hg2, hcont⟩ := htaken.mapped hvu hmap
      obtain ⟨hused, hmem2⟩ := hcont hnodup
      have hnodup2 : ∀ p, t1.free p ≤ 1 := fun p => (hg2.free_le p).trans (hnodup p)
      have hpar2 : ∀ u, u < userPages → (parent.ent u).present = true →
          t1.free (parent.ent u).ppn = 0 := fun u hu hpu => by
        have h1 := hg2.free_le (parent.ent u).ppn
        have h2 := hpar u hu hpu
        omega
      have hent : d1.ent v = ⟨mem, (parent.ent v).flags ||| PTE_P⟩ := by
        rw [hm.ent v (Nat.lt_trans hvu (by decide)), if_pos ⟨rfl, rfl⟩]
      have hother : ∀ u, u < userPages → u ≠ v → d1.ent u = d.ent u := fun u hu hne => by
        rw [hm.ent u (Nat.lt_trans hu (by decide)), if_neg fun hc => hne hc.1]
      rcases ih (by omega) hnodup2 hpar2 hrest with
        ⟨d', hr, hg', hsk, hlow, hcopy⟩ | ⟨hr, lost, hlost⟩
      · refine .inl ⟨d', hr, hg2.trans hg', (hm.sameKernel hvu).trans hsk,
          fun u hu => ?_, fun u hu hu' => ?_⟩
        · rw [hlow u (by omega), hother u (by omega) (by omega)]
        · by_cases huv : u = v
          · subst huv
            have hent' : d'.ent u = ⟨mem, (parent.ent u).flags ||| PTE_P⟩ := by
              rw [hlow u (by omega), hent]
            rw [hent']
            exact .inr ⟨hp, Pte.flags_or_P hp, htaken.pos, (hg'.mem hused).trans hmem2⟩
          · rcases hcopy u (by omega) hu' with ⟨hpu, he⟩ | ⟨hpu, hf, hfr, hc⟩
            · exact .inl ⟨hpu, by rw [he, hother u hu' huv]⟩
            · refine .inr ⟨hpu, hf, lt_of_lt_of_le hfr (hg2.free_le _), ?_⟩
              rw [hc, hg2.mem (hpar u hu' hpu)]
      · exact .inr ⟨hr, lost, hg2.conserves.trans hlost⟩

/-- What a successful `copyuvm` made: the parent's user pages, each copied to a
page that was free before, and nothing else below `KERNBASE`. -/
structure Copied (M : Machine) (parent child : PageDir) (s s' : Kmem) : Prop where
  conserves : Conserves s s' nothing child.own
  kernelHalf : KernelHalf M child
  absent : ∀ u, u < userPages → (parent.ent u).present = false → child.ent u = Pte.zero
  present : ∀ u, u < userPages → (parent.ent u).present = true →
    (child.ent u).flags = (parent.ent u).flags ∧ 0 < s.free (child.ent u).ppn ∧
      s'.mem (child.ent u).ppn = s.mem (parent.ent u).ppn

theorem copyuvm_ok {parent : PageDir} {r : Option PageDir} (hnodup : ∀ p, s.free p ≤ 1)
    (hpar : ∀ u, u < userPages → (parent.ent u).present = true → s.free (parent.ent u).ppn = 0)
    (h : copyuvm M parent s = .ok (r, s')) :
    (∃ child, r = some child ∧ Copied M parent child s s') ∨
      (r = none ∧ ∃ lost, Conserves s s' nothing lost) := by
  unfold copyuvm at h
  simp only [bind_eq_ok] at h
  obtain ⟨q, t, hset, h1⟩ := h
  rcases setupkvm_ok hset with ⟨d, rfl, hc, he⟩ | ⟨rfl, hc⟩
  · have hg : Grows s t nothing d.own := ⟨d.own, hc, fun p => by simp [nothing]⟩
    have hle : ∀ p, t.free p ≤ s.free p := hg.free_le
    rcases copyLoop_ok le_rfl (fun p => (hle p).trans (hnodup p))
      (fun u hu hp => Nat.eq_zero_of_le_zero ((hle _).trans (hpar u hu hp).le)) h1 with
      ⟨child, hr, hg', hsk, -, hcopy⟩ | ⟨hr, lost, hlost⟩
    · refine .inl ⟨child, hr, hc.trans hg'.conserves,
        hsk.kernelHalf fun v _ hv => he v hv, fun u hu hp => ?_, fun u hu hp => ?_⟩
      · rcases hcopy u (by omega) hu with ⟨-, hent⟩ | ⟨hp', -⟩
        · have hu20 : u < 2 ^ 20 := by
            simp only [userPages] at hu
            omega
          rw [hent, he u hu20, kernelEnt_user M hu]
        · rw [hp] at hp'
          cases hp'
      · rcases hcopy u (by omega) hu with ⟨hp', -⟩ | ⟨-, hf, hfr, hcont⟩
        · rw [hp] at hp'
          cases hp'
        · exact ⟨hf, lt_of_lt_of_le hfr (hle _), by rw [hcont, hg.mem (hpar u hu hp)]⟩
    · exact .inr ⟨hr, lost, hc.trans hlost⟩
  · cases h1
    exact .inr ⟨rfl, nothing, hc⟩

/-! ## `copyout` and `loaduvm` -/

/-- An address `uva2ka` accepts is mapped below `KERNBASE`. -/
theorem uva2ka_some (hk : KernelHalf M d) {uva : Nat}
    (h : uva2ka d uva s = .ok (some page, s')) : s' = s ∧ 0 < d.own page := by
  unfold uva2ka at h
  rw [bind_of_ok (walkpgdir_noalloc d uva s)] at h
  cases hpde : (d.pde (PDX uva)).isSome with
  | false =>
    simp only [hpde, Bool.false_eq_true, if_false] at h
    cases h
  | true =>
    simp only [hpde, if_true] at h
    cases hp : (d.pte uva).present with
    | false =>
      simp only [hp, if_true] at h
      cases h
    | true =>
      cases hu : (d.pte uva).user with
      | false =>
        simp only [hp, hu, Bool.true_eq_false, if_false, if_true] at h
        cases h
      | true =>
        simp only [hp, hu, Bool.true_eq_false, if_false] at h
        split_ifs at h
        · cases h
        cases h
        refine ⟨rfl, ?_⟩
        rw [PageDir.pte_eq_ent] at hp hu ⊢
        have hlt : vpn uva < 2 ^ 20 := Nat.mod_lt _ (by decide)
        refine own_pos_of_present ?_ hp
        by_contra hge
        rw [hk _ (by omega) hlt, kernelEnt_not_user] at hu
        cases hu

theorem uva2ka_none {uva : Nat} (h : uva2ka d uva s = .ok (none, s')) : s' = s := by
  unfold uva2ka at h
  rw [bind_of_ok (walkpgdir_noalloc d uva s)] at h
  dsimp only at h
  split_ifs at h <;> cases h <;> rfl

theorem copyoutLoop_conserves (hk : KernelHalf M d) {r : Bool} :
    ∀ {fuel va : Nat} {buf : List UInt8} {s : Kmem}, copyoutLoop d fuel va buf s = .ok (r, s') →
      Conserves s s' d.own d.own := by
  intro fuel
  induction fuel with
  | zero =>
    intro va buf s h
    cases buf with
    | nil =>
      cases h
      exact Conserves.refl _ _
    | cons b bs => cases h
  | succ fuel ih =>
    intro va buf s h
    cases buf with
    | nil =>
      cases h
      exact Conserves.refl _ _
    | cons b bs =>
      unfold copyoutLoop at h
      obtain ⟨q, t, huva, h1⟩ := bind_eq_ok.mp h
      cases q with
      | none =>
        cases h1
        obtain rfl := uva2ka_none huva
        exact Conserves.refl _ _
      | some page =>
        obtain ⟨rfl, hpos⟩ := uva2ka_some hk huva
        dsimp only at h1
        split_ifs at h1
        · cases h1
        obtain ⟨_, t1, hwrite, h2⟩ := bind_eq_ok.mp h1
        exact (writeBytes_conserves hwrite hpos).trans (ih h2)

variable {readi : Nat → Nat → List UInt8}

theorem loadLoop_conserves {offset sz : Nat} {r : Bool} (hsz : v * PGSIZE + sz ≤ KERNBASE)
    (hmapped : ∀ u, u * PGSIZE < v * PGSIZE + sz → (d.ent u).present = true) :
    ∀ {fuel k : Nat} {s : Kmem},
      loadLoop readi d (v * PGSIZE) offset sz fuel (k * PGSIZE) s = .ok (r, s') →
      Conserves s s' d.own d.own := by
  intro fuel
  induction fuel with
  | zero =>
    intro k s h
    cases h
  | succ fuel ih =>
    intro k s h
    unfold loadLoop at h
    by_cases hlt : k * PGSIZE < sz
    · have haddr : (v * PGSIZE + k * PGSIZE) % 2 ^ 32 = (v + k) * PGSIZE := by
        simp only [PGSIZE, KERNBASE] at *
        omega
      have hpage : v + k < userPages := by
        simp only [PGSIZE, KERNBASE, userPages] at *
        omega
      have hpte : d.pte ((v + k) * PGSIZE) = d.ent (v + k) := by
        rw [PageDir.pte_eq_ent, vpn_mul_PGSIZE (by simp only [userPages] at hpage; omega)]
      have hlow : (v + k) * PGSIZE < v * PGSIZE + sz := by
        rw [Nat.add_mul]
        omega
      have hpos := own_pos_of_present (d := d) hpage (hmapped (v + k) hlow)
      have hnext : k * PGSIZE + PGSIZE = (k + 1) * PGSIZE := by
        simp only [PGSIZE]
        omega
      rw [if_pos hlt, haddr, bind_of_ok (walkpgdir_noalloc d _ s)] at h
      cases hpde : (d.pde (PDX ((v + k) * PGSIZE))).isSome with
      | false =>
        simp only [hpde, Bool.false_eq_true, if_false] at h
        cases h
      | true =>
        simp only [hpde, if_true, hpte, hnext, bind_eq_ok] at h
        obtain ⟨_, t, hwrite, h1⟩ := h
        refine (writeBytes_conserves hwrite hpos).trans ?_
        split_ifs at h1 with hlen
        · cases h1
          exact Conserves.refl _ _
        · exact ih h1
        · cases h1
          exact Conserves.refl _ _
        · exact ih h1
    · rw [if_neg hlt] at h
      cases h
      exact Conserves.refl _ _

/-! ## The image built by `exec` -/

/-- The directory maps every page below `sz`. -/
def Covers (d : PageDir) (sz : Nat) : Prop :=
  sz < KERNBASE ∧ ∀ u, u * PGSIZE < sz → (d.ent u).present = true

theorem loadSegment_ok {sz : Nat} {ph : Proghdr}
    {r : Option Nat} (hv : ph.vaddr < 2 ^ 32) (hm : ph.memsz < 2 ^ 32) (hcov : Covers d sz)
    (h : loadSegment M readi d sz ph s = .ok ((d', r), s')) :
    Conserves s s' d.own d'.own ∧ SameKernel d d' ∧ ∀ sz', r = some sz' → Covers d' sz' := by
  unfold loadSegment at h
  by_cases htype : ph.type ≠ ELF_PROG_LOAD
  · rw [if_pos htype] at h
    cases h
    refine ⟨Conserves.refl _ _, SameKernel.refl _, ?_⟩
    rintro sz' hs
    cases hs
    exact hcov
  rw [if_neg htype] at h
  by_cases hfilesz : ph.memsz < ph.filesz
  · rw [if_pos hfilesz] at h
    cases h
    exact ⟨Conserves.refl _ _, SameKernel.refl _, nofun⟩
  rw [if_neg hfilesz] at h
  by_cases hwrap : (ph.vaddr + ph.memsz) % 2 ^ 32 < ph.vaddr
  · rw [if_pos hwrap] at h
    cases h
    exact ⟨Conserves.refl _ _, SameKernel.refl _, nofun⟩
  · rw [if_neg hwrap] at h
    simp only [bind_eq_ok] at h
    obtain ⟨⟨d1, r1⟩, t, halloc, h1⟩ := h
    obtain ⟨hc, hsk, hres⟩ := allocuvm_ok hcov.1 halloc
    dsimp only at h1
    by_cases hr : r1 = 0
    · rw [if_pos hr] at h1
      cases h1
      exact ⟨hc, hsk, nofun⟩
    · rw [if_neg hr] at h1
      by_cases hal : ph.vaddr % PGSIZE ≠ 0
      · rw [if_pos hal] at h1
        cases h1
        exact ⟨hc, hsk, nofun⟩
      · rw [if_neg hal] at h1
        simp only [bind_eq_ok] at h1
        obtain ⟨b, t1, hload, h2⟩ := h1
        obtain ⟨hrlt, hle, hnew, hkeep, hcover, -⟩ := hres hr
        have hcov1 : Covers d1 r1 := by
          refine ⟨hrlt, fun u hu => ?_⟩
          by_cases hlow : u * PGSIZE < sz
          · have hu20 : u < 2 ^ 20 := by
              have := hcov.1
              simp only [PGSIZE, KERNBASE] at *
              omega
            have hp := hcov.2 u hlow
            rw [hkeep u hu20 hp]
            exact hp
          · exact hcover u (by omega) hu
        obtain ⟨v, hvv⟩ : ∃ v, ph.vaddr = v * PGSIZE := ⟨ph.vaddr / PGSIZE, by
          simp only [PGSIZE] at hal ⊢
          omega⟩
        have hfile : v * PGSIZE + ph.filesz ≤ r1 := by
          rw [← hvv]
          simp only [PGSIZE, KERNBASE] at *
          omega
        have hloadc : Conserves t t1 d1.own d1.own := by
          unfold loaduvm at hload
          rw [if_neg (by simp only [PGSIZE] at hal ⊢; omega), hvv] at hload
          have h0 : (0 : Nat) = 0 * PGSIZE := by simp
          rw [h0] at hload
          exact loadLoop_conserves (hfile.trans hrlt.le)
            (fun u hu => hcov1.2 u (lt_of_lt_of_le hu hfile)) hload
        cases b with
        | true =>
          cases h2
          refine ⟨hc.trans hloadc, hsk, ?_⟩
          rintro sz' hs
          cases hs
          exact hcov1
        | false =>
          cases h2
          exact ⟨hc.trans hloadc, hsk, nofun⟩

theorem field_lt (bs : List UInt8) (off width : Nat) : field bs off width < 256 ^ width := by
  induction width generalizing off with
  | zero => simp [field]
  | succ width ih =>
    have h1 := ih (off + 1)
    have h2 := (bs.getD off 0).toNat_lt
    rw [field, pow_succ]
    omega

theorem loadSegments_ok {r : Option Nat} :
    ∀ {n off sz : Nat} {d : PageDir} {s : Kmem}, Covers d sz →
      loadSegments M readi n off d sz s = .ok ((d', r), s') →
      Conserves s s' d.own d'.own ∧ SameKernel d d' := by
  intro n
  induction n with
  | zero =>
    intro off sz d s _ h
    cases h
    exact ⟨Conserves.refl _ _, SameKernel.refl _⟩
  | succ n ih =>
    intro off sz d s hcov h
    unfold loadSegments at h
    dsimp only at h
    split_ifs at h with hlen
    · cases h
      exact ⟨Conserves.refl _ _, SameKernel.refl _⟩
    · simp only [bind_eq_ok] at h
      obtain ⟨⟨d1, r1⟩, t, hseg, h1⟩ := h
      have hvaddr : (Proghdr.ofBytes (readi off Proghdr.size)).vaddr < 2 ^ 32 :=
        field_lt _ 8 4
      have hmemsz : (Proghdr.ofBytes (readi off Proghdr.size)).memsz < 2 ^ 32 :=
        field_lt _ 20 4
      obtain ⟨hc, hsk, hcov1⟩ := loadSegment_ok hvaddr hmemsz hcov hseg
      cases r1 with
      | none =>
        cases h1
        exact ⟨hc, hsk⟩
      | some sz1 =>
        obtain ⟨hc', hsk'⟩ := ih (hcov1 sz1 rfl) h1
        exact ⟨hc.trans hc', hsk.trans hsk'⟩

theorem pushArgs_conserves (hk : KernelHalf M d) {r : Option (Nat × List Nat)} :
    ∀ {argv : List (List UInt8)} {sp : Nat} {ustack : List Nat} {s : Kmem},
      pushArgs d argv sp ustack s = .ok (r, s') → Conserves s s' d.own d.own := by
  intro argv
  induction argv with
  | nil =>
    intro sp ustack s h
    cases h
    exact Conserves.refl _ _
  | cons arg argv ih =>
    intro sp ustack s h
    unfold pushArgs at h
    split_ifs at h with hmax
    · cases h
      exact Conserves.refl _ _
    · dsimp only at h
      simp only [bind_eq_ok] at h
      obtain ⟨b, t, hcopy, h1⟩ := h
      have hc := copyoutLoop_conserves hk hcopy
      cases b with
      | true => exact hc.trans (ih h1)
      | false =>
        cases h1
        exact hc

variable {argv : List (List UInt8)}

theorem pushStack_conserves (hk : KernelHalf M d) {r : Option Nat}
    (h : pushStack d argv s = .ok (r, s')) : Conserves s s' d.own d.own := by
  unfold pushStack at h
  simp only [bind_eq_ok] at h
  obtain ⟨q, t, hargs, h1⟩ := h
  have hc := pushArgs_conserves hk hargs
  cases q with
  | none =>
    cases h1
    exact hc
  | some sa =>
    simp only [bind_eq_ok] at h1
    obtain ⟨b, t1, hcopy, h2⟩ := h1
    have hc1 := copyoutLoop_conserves hk hcopy
    cases b with
    | true =>
      cases h2
      exact hc.trans hc1
    | false =>
      cases h2
      exact hc.trans hc1

theorem bad_ok {r : Option Image} (h : bad M d s = .ok (r, s')) :
    r = none ∧ Conserves s s' d.own nothing := by
  unfold bad at h
  simp only [bind_eq_ok] at h
  obtain ⟨_, t, hfree, hret⟩ := h
  cases hret
  exact ⟨rfl, freevm_ok hfree⟩

/-- An image is built on pages that were free, or everything is given back. -/
theorem execStack_ok {entry : Nat} {r : Option Image}
    (hk : KernelHalf M d) (h : execStack M d entry argv s = .ok (r, s')) :
    (∃ im, r = some im ∧ Conserves s s' d.own im.pgdir.own ∧ KernelHalf M im.pgdir ∧
      im.sz = PGROUNDDOWN 0x3000) ∨ (r = none ∧ Conserves s s' d.own nothing) := by
  unfold execStack at h
  simp only [bind_eq_ok] at h
  obtain ⟨⟨d1, r1⟩, t, halloc, h1⟩ := h
  obtain ⟨hc, hsk, -⟩ := allocuvm_ok (by simp only [KERNBASE, PGSIZE]; omega) halloc
  have hk1 : KernelHalf M d1 := hsk.kernelHalf hk
  dsimp only at h1
  split_ifs at h1 with hr
  · obtain ⟨rfl, hb⟩ := bad_ok h1
    exact .inr ⟨rfl, hc.trans hb⟩
  · simp only [bind_eq_ok] at h1
    obtain ⟨q, t1, hpush, h2⟩ := h1
    have hc1 := pushStack_conserves hk1 hpush
    cases q with
    | none =>
      obtain ⟨rfl, hb⟩ := bad_ok h2
      exact .inr ⟨rfl, (hc.trans hc1).trans hb⟩
    | some sp =>
      cases h2
      exact .inl ⟨_, rfl, hc.trans hc1, hk1, rfl⟩

theorem execImage_ok
    {r : Option Image} (h : execImage M readi argv s = .ok (r, s')) :
    (∃ im, r = some im ∧ Conserves s s' nothing im.pgdir.own ∧ KernelHalf M im.pgdir ∧
      im.sz = PGROUNDDOWN 0x3000) ∨ (r = none ∧ Conserves s s' nothing nothing) := by
  unfold execImage at h
  dsimp only at h
  split_ifs at h with hlen hmagic
  · cases h
    exact .inr ⟨rfl, Conserves.refl _ _⟩
  · cases h
    exact .inr ⟨rfl, Conserves.refl _ _⟩
  · simp only [bind_eq_ok] at h
    obtain ⟨q, t, hset, h1⟩ := h
    rcases setupkvm_ok hset with ⟨d, rfl, hc, he⟩ | ⟨rfl, hc⟩
    · simp only [bind_eq_ok] at h1
      obtain ⟨⟨d1, r1⟩, t1, hsegs, h2⟩ := h1
      have hk : KernelHalf M d := fun v _ hv => he v hv
      have hcov : Covers d 0 := ⟨by decide, fun u hu => by omega⟩
      obtain ⟨hc1, hsk⟩ := loadSegments_ok hcov hsegs
      cases r1 with
      | none =>
        obtain ⟨rfl, hb⟩ := bad_ok h2
        exact .inr ⟨rfl, (hc.trans hc1).trans hb⟩
      | some sz =>
        rcases execStack_ok (hsk.kernelHalf hk) h2 with ⟨im, hr, hc2, hrest⟩ | ⟨hr, hc2⟩
        · exact .inl ⟨im, hr, (hc.trans hc1).trans hc2, hrest⟩
        · exact .inr ⟨hr, (hc.trans hc1).trans hc2⟩
    · cases h1
      exact .inr ⟨rfl, hc⟩

end Vm
end Xv6
