import Xv6.Lib.Patch
import Xv6.Vm.Load
import Xv6.Vm.Safe

/-!
# What `exec` loads

`exec` takes the program headers as they stand in the file: their addresses and sizes are
any words, in any order, and the segments may overlap.  What keeps the loader from going
wrong is one invariant, `Filled`: the user pages mapped so far are those below the running
size.  With it every call of `loaduvm` finds its pages, and the stack page is still free.

* `regular f size` is `readi` of a regular file.
* `imageByte f phs x` is the byte that the segments `phs` put at `x`, the later over the
  earlier, over zeros.
* `execImage_ends` and `execImage_loaded` say that the image is built or given up, and what
  it holds.
-/

namespace Xv6
namespace Vm

open Lib Lib.Exec

/-- Exactly the user pages below `sz` are mapped. -/
structure Filled (d : PageDir) (sz : Nat) : Prop where
  low : sz < KERNBASE
  present : ∀ u, u < userPages → ((d.ent u).present = true ↔ u * PGSIZE < sz)

/-- `readi` of a regular file of `size` bytes, those of `f`. -/
def regular (f : Nat → UInt8) (size off n : Nat) : List UInt8 :=
  if off ≤ size ∧ off + n < 2 ^ 32 then firsts (fun i => f (off + i)) (min n (size - off)) else []

/-- What the segment leaves at address `x`, where `b` was. -/
def Proghdr.put (f : Nat → UInt8) (x : Nat) (b : UInt8) (ph : Proghdr) : UInt8 :=
  if ph.vaddr ≤ x ∧ x < ph.vaddr + ph.filesz then f (ph.off + (x - ph.vaddr)) else b

/-- The byte at address `x` once the segments are loaded. -/
def imageByte (f : Nat → UInt8) (phs : List Proghdr) (x : Nat) : UInt8 :=
  phs.foldl (Proghdr.put f x) 0

variable {M : Machine} {s s' : Kmem} {d d' : PageDir} {f : Nat → UInt8} {size sz x : Nat}

/-! ### Pages and bytes -/

theorem byte_of_present (h : (d.ent (x / PGSIZE)).present = true) :
    d.byte s x = s.mem (d.ent (x / PGSIZE)).ppn (x % PGSIZE) := by
  rw [PageDir.byte, mapping_of_present h]

theorem userPage_lt (hx : x < KERNBASE) : x / PGSIZE < userPages := by
  unfold KERNBASE at hx
  unfold PGSIZE userPages
  omega

theorem Filled.covers (h : Filled d sz) : Covers d sz := by
  refine ⟨h.low, fun u hu => (h.present u ?_).mpr hu⟩
  have := h.low
  simp only [PGSIZE, KERNBASE, userPages] at *
  omega

/-- The frames of the pages are different pages of memory, so there are not more of them. -/
theorem Filled.le_physTop (h : Filled d sz) (hpool : Pool M s d.own) : sz ≤ PHYSTOP := by
  by_contra hgt
  have htop : PHYSTOP / PGSIZE < userPages := by decide
  -- one page more than there are in memory
  have hpresent : ∀ u, u < PHYSTOP / PGSIZE + 1 → u < userPages ∧ (d.ent u).present = true := by
    intro u hu
    have huser : u < userPages := by omega
    refine ⟨huser, (h.present u huser).mpr ?_⟩
    simp only [PHYSTOP, PGSIZE] at *
    omega
  have hmaps : Set.MapsTo (fun u => (d.ent u).ppn) (Finset.range (PHYSTOP / PGSIZE + 1))
      (Finset.range (PHYSTOP / PGSIZE)) := by
    intro u hu
    obtain ⟨huser, hp⟩ := hpresent u (Finset.mem_range.mp (Finset.mem_coe.mp hu))
    exact Finset.mem_coe.mpr (Finset.mem_range.mpr (hpool.inRange_of_present huser hp).2)
  have hinj : Set.InjOn (fun u => (d.ent u).ppn) (Finset.range (PHYSTOP / PGSIZE + 1)) := by
    intro u hu v hv heq
    obtain ⟨hu', hpu⟩ := hpresent u (Finset.mem_range.mp (Finset.mem_coe.mp hu))
    obtain ⟨hv', hpv⟩ := hpresent v (Finset.mem_range.mp (Finset.mem_coe.mp hv))
    exact hpool.unshared u v hu' hv' hpu hpv heq
  have hcard := Finset.card_le_card_of_injOn _ hmaps hinj
  rw [Finset.card_range, Finset.card_range] at hcard
  omega

/-- No page number beyond those of memory is mapped. -/
theorem Filled.high_absent (h : Filled d sz) (hpool : Pool M s d.own) {u : Nat}
    (hlo : PHYSTOP / PGSIZE ≤ u) (hu : u < userPages) : (d.ent u).present = false := by
  rw [Bool.eq_false_iff]
  intro hp
  have hlt := (h.present u hu).mp hp
  have hle := h.le_physTop hpool
  simp only [PGSIZE, PHYSTOP] at *
  omega

/-- The page of the stack is not mapped yet. -/
theorem Filled.stack_absent (h : Filled d sz) (hpool : Pool M s d.own) :
    (d.ent 0x7ffff).present = false := h.high_absent hpool (by decide) (by decide)

/-! ### `allocuvm` -/

theorem PGROUNDUP_eq_pagesTo (hlow : sz < KERNBASE) : PGROUNDUP sz = pagesTo sz * PGSIZE := by
  unfold PGROUNDUP pagesTo
  unfold KERNBASE at hlow
  unfold PGSIZE
  omega

theorem Filled.allocuvm_ends {newsz : Nat} (h : Filled d sz) (hpool : Pool M s d.own) :
    Ends (allocuvm M d sz newsz) s := by
  refine Ends.ite (fun _ => Ends.pure _) fun hnew => Ends.ite (fun _ => Ends.pure _) fun hle => ?_
  have hnew' : newsz < KERNBASE := Nat.lt_of_not_le hnew
  rw [PGROUNDUP_eq_pagesTo h.low]
  apply allocLoop_ends hnew' _ hpool
  · intro u hlo hu
    have huser : u < userPages := by
      simp only [PGSIZE, KERNBASE, userPages] at *
      omega
    rw [Bool.eq_false_iff]
    intro hp
    have := lt_pagesTo.mpr ((h.present u huser).mp hp)
    omega
  · have := pagesTo_le hnew'.le
    omega

/-- New pages are zeroed, and a page that is not mapped reads as zeros: no byte changes. -/
theorem allocLoop_byte {oldsz newsz r : Nat} (hnew : newsz < KERNBASE) :
    ∀ {fuel v : Nat} {d : PageDir} {s : Kmem}, Pool M s d.own → r ≠ 0 →
      allocLoop M oldsz newsz fuel d (v * PGSIZE) s = .ok ((d', r), s') →
      ∀ x, x < KERNBASE → d'.byte s' x = d.byte s x := by
  intro fuel
  induction fuel with
  | zero =>
    intro v d s _ _ h
    cases h
  | succ fuel ih =>
    intro v d s hpool hr h x hx
    cases allocLoop_turn h with
    | done => rfl
    | noPage => exact absurd rfl hr
    | noTable => exact absurd rfl hr
    | @mapped d1 _ _ _ _ _ _ hlt htaken hmap hrest =>
      have hv := page_lt_userPages hnew hlt
      have hm := (mappages_user_ok hv hmap).1
      obtain ⟨hg, hzero⟩ := htaken.mapped hv hmap
      rw [ih (hpool.conserves hg.conserves) hr hrest x hx]
      have huser := userPage_lt hx
      have hx20 : x / PGSIZE < 2 ^ 20 := Nat.lt_trans huser (by decide)
      have hent := hm.ent (x / PGSIZE) hx20
      by_cases hxv : x / PGSIZE = v
      · -- the new page
        rw [if_pos ⟨hxv, rfl⟩] at hent
        have hp : (d1.ent (x / PGSIZE)).present = true := by
          rw [hent]
          exact Pte.present_or_P _ _
        rw [byte_of_present hp, hent, (hzero hpool.free_le_one).2,
          byte_of_absent (by rw [hxv]; exact hm.absent rfl)]
      · rw [if_neg fun hc => hxv hc.1] at hent
        by_cases hp : (d.ent (x / PGSIZE)).present = true
        · rw [byte_of_present (by rw [hent]; exact hp), byte_of_present hp, hent,
            hg.mem (hpool.free_eq_zero huser hp)]
        · have habs := Bool.eq_false_iff.mpr hp
          rw [byte_of_absent (by rw [hent]; exact habs), byte_of_absent habs]

/-- The running size grows to the new size. -/
theorem Filled.grow {newsz r : Nat} (h : Filled d sz) (hpool : Pool M s d.own)
    (hrun : allocuvm M d sz newsz s = .ok ((d', r), s')) (hr : r ≠ 0) :
    Filled d' r ∧ sz ≤ r ∧ newsz ≤ r ∧ ∀ x, x < KERNBASE → d'.byte s' x = d.byte s x := by
  obtain ⟨-, -, hres⟩ := allocuvm_ok h.low hrun
  obtain ⟨hlow, hle, hnew, hkeep, hcover, hout⟩ := hres hr
  refine ⟨⟨hlow, fun u hu => ?_⟩, hle, hnew, fun x hx => ?_⟩
  · have hu20 : u < 2 ^ 20 := Nat.lt_trans hu (by decide)
    rcases Nat.lt_or_ge (u * PGSIZE) sz with hbelow | habove
    · rw [hout u hu20 (.inl hbelow), h.present u hu]
      omega
    · rcases Nat.lt_or_ge (u * PGSIZE) r with hin | hhigh
      · exact iff_of_true (hcover u habove hin) hin
      · rw [hout u hu20 (.inr hhigh), h.present u hu]
        omega
  · unfold allocuvm at hrun
    by_cases hhigh : newsz ≥ KERNBASE
    · rw [if_pos hhigh] at hrun
      cases hrun
      rfl
    · rw [if_neg hhigh] at hrun
      by_cases hlt : newsz < sz
      · rw [if_pos hlt] at hrun
        cases hrun
        rfl
      · rw [if_neg hlt, PGROUNDUP_eq_pagesTo h.low] at hrun
        exact allocLoop_byte (Nat.lt_of_not_le hhigh) hpool hr hrun x hx

/-! ### `loaduvm` -/

/-- A full read of a regular file. -/
theorem regular_full {off n : Nat} (hn : 0 < n) (h : (regular f size off n).length = n) :
    off + n ≤ size ∧ ∀ i, i < n → (regular f size off n).getD i 0 = f (off + i) := by
  unfold regular at h ⊢
  split at h
  · rename_i hin
    rw [length_firsts] at h
    refine ⟨by omega, fun i hi => ?_⟩
    rw [if_pos hin, getD_firsts _ (by omega)]
  · rw [List.length_nil] at h
    omega

section loadLoop

variable {readi : Nat → Nat → List UInt8} {v offset n : Nat}

/-- How many bytes the turn at byte `i` reads. -/
def loadChunk (n i : Nat) : Nat := if n - i < PGSIZE then n - i else PGSIZE

/-- A turn of the loop of `loaduvm` at a page that is mapped. -/
theorem loadLoop_turn {fuel k : Nat} (hlow : v * PGSIZE + n ≤ KERNBASE) (hlt : k * PGSIZE < n)
    (hp : (d.ent (v + k)).present = true) :
    loadLoop readi d (v * PGSIZE) offset n (fuel + 1) (k * PGSIZE) s =
      let bs := readi ((offset + k * PGSIZE) % 2 ^ 32) (loadChunk n (k * PGSIZE))
      if bs.length ≠ loadChunk n (k * PGSIZE) then
        .ok (false, written s (d.ent (v + k)).ppn 0 bs)
      else
        loadLoop readi d (v * PGSIZE) offset n fuel ((k + 1) * PGSIZE)
          (written s (d.ent (v + k)).ppn 0 bs) := by
  have haddr : (v * PGSIZE + k * PGSIZE) % 2 ^ 32 = (v + k) * PGSIZE := by
    simp only [PGSIZE, KERNBASE] at *
    omega
  have hpage : v + k < 2 ^ 20 := by
    simp only [PGSIZE, KERNBASE] at *
    omega
  have hpte : d.pte ((v + k) * PGSIZE) = d.ent (v + k) := by
    rw [PageDir.pte_eq_ent, vpn_mul_PGSIZE hpage]
  have hfound : (d.pde (PDX ((v + k) * PGSIZE))).isSome = true := by
    rw [PDX_eq_vpn, vpn_mul_PGSIZE hpage]
    exact table_of_present hp
  have hnext : k * PGSIZE + PGSIZE = (k + 1) * PGSIZE := by
    simp only [PGSIZE]
    omega
  rw [loadLoop, if_pos hlt, haddr, bind_of_ok (walkpgdir_noalloc d _ s), hpte, hnext]
  dsimp only
  rw [hfound, if_pos rfl]
  dsimp only [loadChunk]
  have hwrite : ∀ bs, writeBytes (d.ent (v + k)).ppn 0 bs s =
      .ok ((), written s (d.ent (v + k)).ppn 0 bs) := fun _ => rfl
  rw [bind_of_ok (hwrite _), run_ite]
  rfl

theorem loadLoop_ends (hlow : v * PGSIZE + n ≤ KERNBASE)
    (hmapped : ∀ u, u * PGSIZE < v * PGSIZE + n → (d.ent u).present = true) :
    ∀ {fuel k : Nat} {s : Kmem}, pagesTo n - k < fuel →
      Ends (loadLoop readi d (v * PGSIZE) offset n fuel (k * PGSIZE)) s := by
  intro fuel
  induction fuel with
  | zero =>
    intro k s hfuel
    exact absurd hfuel (Nat.not_lt_zero _)
  | succ fuel ih =>
    intro k s hfuel
    by_cases hlt : k * PGSIZE < n
    · have hp : (d.ent (v + k)).present = true := by
        apply hmapped
        rw [Nat.add_mul]
        omega
      unfold Ends
      rw [loadLoop_turn hlow hlt hp]
      dsimp only
      split
      · exact ⟨_, rfl⟩
      · rw [← lt_pagesTo] at hlt
        exact ih (by omega)
    · rw [loadLoop, if_neg hlt]
      exact Ends.pure _

/-- The bytes from that of turn `k` on are those of the file. -/
theorem loadLoop_byte (hun : Unshared d) (hsize : size < 2 ^ 32) (hlow : v * PGSIZE + n ≤ KERNBASE)
    (hmapped : ∀ u, u * PGSIZE < v * PGSIZE + n → (d.ent u).present = true) :
    ∀ {fuel k : Nat} {s : Kmem}, (k * PGSIZE < n → offset + k * PGSIZE < 2 ^ 32) →
      loadLoop (regular f size) d (v * PGSIZE) offset n fuel (k * PGSIZE) s = .ok (true, s') →
      ∀ x, x < KERNBASE → d.byte s' x =
        if (v + k) * PGSIZE ≤ x ∧ x < v * PGSIZE + n then f (offset + (x - v * PGSIZE))
        else d.byte s x := by
  -- by induction on the fuel: a turn fills its page, the others the pages after it
  intro fuel
  induction fuel with
  | zero =>
    intro k s _ h
    cases h
  | succ fuel ih =>
    intro k s hoff h x hx
    by_cases hlt : k * PGSIZE < n
    · have hp : (d.ent (v + k)).present = true := by
        apply hmapped
        rw [Nat.add_mul]
        omega
      have hvk : v + k < userPages := by
        simp only [PGSIZE, KERNBASE, userPages] at *
        omega
      rw [loadLoop_turn hlow hlt hp, Nat.mod_eq_of_lt (hoff hlt)] at h
      dsimp only at h
      split at h
      · cases h
      · rename_i hlen
        rw [not_not] at hlen
        have hpos : 0 < loadChunk n (k * PGSIZE) := by
          unfold loadChunk PGSIZE at *
          split
          · omega
          · omega
        obtain ⟨hfits, hget⟩ := regular_full hpos hlen
        have hchunk : k * PGSIZE + PGSIZE < n → loadChunk n (k * PGSIZE) = PGSIZE := by
          intro hmore
          unfold loadChunk
          rw [if_neg (by omega)]
        have hnext : (k + 1) * PGSIZE < n → offset + (k + 1) * PGSIZE < 2 ^ 32 := by
          intro hmore
          have := hchunk (by rw [Nat.add_mul, Nat.one_mul] at hmore; exact hmore)
          rw [Nat.add_mul]
          omega
        rw [ih hnext h x hx]
        -- the page of this turn
        have hturn : d.byte (written s (d.ent (v + k)).ppn 0
            (regular f size (offset + k * PGSIZE) (loadChunk n (k * PGSIZE)))) x =
            if x / PGSIZE = v + k ∧ x % PGSIZE < loadChunk n (k * PGSIZE) then
              f (offset + k * PGSIZE + x % PGSIZE) else d.byte s x := by
          by_cases hpx : (d.ent (x / PGSIZE)).present = true
          · rw [byte_of_present hpx, byte_of_present hpx, written_mem, hlen, Nat.zero_add,
              Nat.sub_zero]
            by_cases hxv : x / PGSIZE = v + k
            · by_cases hin : x % PGSIZE < loadChunk n (k * PGSIZE)
              · rw [if_pos ⟨by rw [hxv], Nat.zero_le _, hin⟩, if_pos ⟨hxv, hin⟩, hget _ hin]
              · rw [if_neg fun hc => hin hc.2.2, if_neg fun hc => hin hc.2]
            · rw [if_neg, if_neg fun hc => hxv hc.1]
              rintro ⟨hppn, -⟩
              exact hxv (hun _ _ (userPage_lt hx) hvk hpx hp hppn)
          · have habs := Bool.eq_false_iff.mpr hpx
            have hxv : x / PGSIZE ≠ v + k := by
              intro hxv
              rw [hxv] at hpx
              exact hpx hp
            rw [byte_of_absent habs, byte_of_absent habs, if_neg fun hc => hxv hc.1]
        rw [hturn]
        have hcut : loadChunk n (k * PGSIZE) = min (n - k * PGSIZE) PGSIZE := by
          unfold loadChunk
          split
          · omega
          · omega
        rw [hcut]
        have hsplit : (v + k) * PGSIZE ≤ x ∧ x < v * PGSIZE + n ↔
            ((v + (k + 1)) * PGSIZE ≤ x ∧ x < v * PGSIZE + n) ∨
              (x / PGSIZE = v + k ∧ x % PGSIZE < min (n - k * PGSIZE) PGSIZE) := by
          simp only [PGSIZE] at *
          omega
        by_cases hrest : (v + (k + 1)) * PGSIZE ≤ x ∧ x < v * PGSIZE + n
        · rw [if_pos hrest, if_pos (hsplit.mpr (.inl hrest))]
        · rw [if_neg hrest]
          by_cases hin : x / PGSIZE = v + k ∧ x % PGSIZE < min (n - k * PGSIZE) PGSIZE
          · have hpos : offset + k * PGSIZE + x % PGSIZE = offset + (x - v * PGSIZE) := by
              simp only [PGSIZE] at *
              omega
            rw [if_pos hin, if_pos (hsplit.mpr (.inr hin)), hpos]
          · rw [if_neg hin, if_neg fun hc => (hsplit.mp hc).elim hrest hin]
    · rw [loadLoop, if_neg hlt] at h
      cases h
      rw [if_neg]
      rw [Nat.add_mul]
      omega

end loadLoop

/-! ### The segments -/

section segments

variable {readi : Nat → Nat → List UInt8} {ph : Proghdr}

/-- The check of `exec` for a sum that wraps around. -/
theorem Proghdr.stop_eq (hv : ph.vaddr < 2 ^ 32) (hm : ph.memsz < 2 ^ 32)
    (hwrap : ¬(ph.vaddr + ph.memsz) % 2 ^ 32 < ph.vaddr) :
    (ph.vaddr + ph.memsz) % 2 ^ 32 = ph.stop := by
  unfold Proghdr.stop
  omega

/-- The pages of a segment that `allocuvm` made room for. -/
theorem Filled.loaduvm_ends (h : Filled d sz) (hal : ph.vaddr % PGSIZE = 0)
    (hfile : ph.filesz ≤ ph.memsz) (hstop : ph.stop ≤ sz) :
    Ends (loaduvm readi d ph.vaddr ph.off ph.filesz) s := by
  have hlow := h.low
  unfold Proghdr.stop at hstop
  obtain ⟨v, hv⟩ : ∃ v, ph.vaddr = v * PGSIZE := ⟨_, (Nat.div_mul_cancel (Nat.dvd_of_mod_eq_zero hal)).symm⟩
  unfold loaduvm
  rw [if_neg (not_not_intro hal), hv, ← Nat.zero_mul PGSIZE]
  rw [hv] at hstop
  apply loadLoop_ends (by omega)
  · intro u hu
    exact h.covers.2 u (by omega)
  · have := pagesTo_le (show ph.filesz ≤ KERNBASE by omega)
    omega

theorem Filled.loadSegment_ends (h : Filled d sz) (hpool : Pool M s d.own)
    (hv : ph.vaddr < 2 ^ 32) (hm : ph.memsz < 2 ^ 32) :
    Ends (loadSegment M readi d sz ph) s := by
  refine Ends.ite (fun _ => Ends.pure _) fun _ => ?_
  refine Ends.ite (fun _ => Ends.pure _) fun hfile => ?_
  refine Ends.ite (fun _ => Ends.pure _) fun hwrap => ?_
  refine Ends.bind (h.allocuvm_ends hpool) ?_
  rintro ⟨d1, r⟩ t halloc
  refine Ends.ite (fun _ => Ends.pure _) fun hr => ?_
  refine Ends.ite (fun _ => Ends.pure _) fun hal => ?_
  obtain ⟨hfilled, -, hnew, -⟩ := h.grow hpool halloc hr
  rw [Proghdr.stop_eq hv hm hwrap] at hnew
  refine Ends.bind (hfilled.loaduvm_ends (not_not.mp hal) (Nat.le_of_not_lt hfile) hnew) ?_
  intro b t' _
  exact Ends.ite (fun _ => Ends.pure _) fun _ => Ends.pure _

/-- How a segment is loaded. -/
theorem loadSegment_some {sz' : Nat}
    (hrun : loadSegment M readi d sz ph s = .ok ((d', some sz'), s')) :
    (ph.type ≠ ELF_PROG_LOAD ∧ d' = d ∧ sz' = sz ∧ s' = s) ∨
      (ph.type = ELF_PROG_LOAD ∧ ph.filesz ≤ ph.memsz ∧
        ¬(ph.vaddr + ph.memsz) % 2 ^ 32 < ph.vaddr ∧ ph.vaddr % PGSIZE = 0 ∧ sz' ≠ 0 ∧
        ∃ t, allocuvm M d sz ((ph.vaddr + ph.memsz) % 2 ^ 32) s = .ok ((d', sz'), t) ∧
          loaduvm readi d' ph.vaddr ph.off ph.filesz t = .ok (true, s')) := by
  unfold loadSegment at hrun
  by_cases htype : ph.type ≠ ELF_PROG_LOAD
  · rw [if_pos htype] at hrun
    cases hrun
    exact .inl ⟨htype, rfl, rfl, rfl⟩
  rw [if_neg htype] at hrun
  by_cases hfile : ph.memsz < ph.filesz
  · rw [if_pos hfile] at hrun
    cases hrun
  rw [if_neg hfile] at hrun
  by_cases hwrap : (ph.vaddr + ph.memsz) % 2 ^ 32 < ph.vaddr
  · rw [if_pos hwrap] at hrun
    cases hrun
  rw [if_neg hwrap] at hrun
  obtain ⟨⟨d1, r⟩, t, halloc, hrest⟩ := bind_eq_ok.mp hrun
  dsimp only at hrest
  by_cases hr : r = 0
  · rw [if_pos hr] at hrest
    cases hrest
  rw [if_neg hr] at hrest
  by_cases hal : ph.vaddr % PGSIZE ≠ 0
  · rw [if_pos hal] at hrest
    cases hrest
  rw [if_neg hal] at hrest
  obtain ⟨b, t', hload, hret⟩ := bind_eq_ok.mp hrest
  cases b with
  | false => cases hret
  | true =>
    cases hret
    exact .inr ⟨not_not.mp htype, Nat.le_of_not_lt hfile, hwrap, not_not.mp hal, hr, t, halloc,
      hload⟩

/-- The segment lies below the new running size. -/
theorem Filled.segment {sz' : Nat} (h : Filled d sz) (hpool : Pool M s d.own)
    (hv : ph.vaddr < 2 ^ 32) (hm : ph.memsz < 2 ^ 32)
    (hrun : loadSegment M readi d sz ph s = .ok ((d', some sz'), s')) :
    Filled d' sz' ∧ sz ≤ sz' ∧ (ph.type = ELF_PROG_LOAD → ph.stop ≤ sz') := by
  rcases loadSegment_some hrun with ⟨htype, rfl, rfl, rfl⟩ | ⟨-, -, hwrap, -, hr, t, halloc, -⟩
  · exact ⟨h, le_rfl, fun hload => absurd hload htype⟩
  · obtain ⟨hfilled, hle, hstop, -⟩ := h.grow hpool halloc hr
    rw [Proghdr.stop_eq hv hm hwrap] at hstop
    exact ⟨hfilled, hle, fun _ => hstop⟩

/-- Its bytes are those of the file. -/
theorem Filled.segment_byte {sz' : Nat} (h : Filled d sz) (hpool : Pool M s d.own)
    (hsize : size < 2 ^ 32) (hv : ph.vaddr < 2 ^ 32) (hm : ph.memsz < 2 ^ 32)
    (hoff : ph.off < 2 ^ 32)
    (hrun : loadSegment M (regular f size) d sz ph s = .ok ((d', some sz'), s'))
    (hx : x < KERNBASE) :
    d'.byte s' x = if ph.type = ELF_PROG_LOAD then ph.put f x (d.byte s x) else d.byte s x := by
  rcases loadSegment_some hrun with
    ⟨htype, rfl, rfl, rfl⟩ | ⟨htype, hfile, hwrap, hal, hr, t, halloc, hload⟩
  · rw [if_neg htype]
  · obtain ⟨hfilled, -, hstop, hbyte⟩ := h.grow hpool halloc hr
    have hpool1 : Pool M t d'.own := hpool.conserves (allocuvm_ok h.low halloc).1
    -- the address is that of a page
    obtain ⟨v, hvp⟩ : ∃ v, ph.vaddr = v * PGSIZE :=
      ⟨_, (Nat.div_mul_cancel (Nat.dvd_of_mod_eq_zero hal)).symm⟩
    have hlow := hfilled.low
    have hfits : v * PGSIZE + ph.filesz ≤ sz' := by
      rw [Proghdr.stop_eq hv hm hwrap, Proghdr.stop] at hstop
      rw [← hvp]
      omega
    unfold loaduvm at hload
    rw [if_neg (not_not_intro hal), hvp, ← Nat.zero_mul PGSIZE] at hload
    have hloaded := loadLoop_byte hpool1.unshared hsize (by omega)
      (fun u hu => hfilled.covers.2 u (by omega))
      (fun _ => by rw [Nat.zero_mul]; exact hoff) hload x hx
    rw [hloaded, hbyte x hx, if_pos htype, Proghdr.put, Nat.add_zero, hvp]

/-- The fields of a header are words. -/
theorem Proghdr.ofBytes_lt (bs : List UInt8) : (Proghdr.ofBytes bs).vaddr < 2 ^ 32 ∧
    (Proghdr.ofBytes bs).memsz < 2 ^ 32 ∧ (Proghdr.ofBytes bs).off < 2 ^ 32 :=
  ⟨field_lt bs 8 4, field_lt bs 20 4, field_lt bs 4 4⟩

/-- A turn of the loop over the headers. -/
theorem loadSegments_some {n off sz' : Nat}
    (hrun : loadSegments M readi (n + 1) off d sz s = .ok ((d', some sz'), s')) :
    ∃ d1 sz1 t, loadSegment M readi d sz (Proghdr.ofBytes (readi off Proghdr.size)) s =
        .ok ((d1, some sz1), t) ∧
      loadSegments M readi n ((off + Proghdr.size) % 2 ^ 32) d1 sz1 t =
        .ok ((d', some sz'), s') := by
  unfold loadSegments at hrun
  dsimp only at hrun
  by_cases hlen : (readi off Proghdr.size).length ≠ Proghdr.size
  · rw [if_pos hlen] at hrun
    cases hrun
  rw [if_neg hlen] at hrun
  obtain ⟨⟨d1, r⟩, t, hseg, hrest⟩ := bind_eq_ok.mp hrun
  cases r with
  | none => cases hrest
  | some sz1 => exact ⟨d1, sz1, t, hseg, hrest⟩

/-- Whatever the headers are, the loop over them comes to an end. -/
theorem Filled.loadSegments_ends : ∀ {n off sz : Nat} {d : PageDir} {s : Kmem}, Filled d sz →
    Pool M s d.own → Ends (loadSegments M readi n off d sz) s := by
  intro n
  induction n with
  | zero => exact fun _ _ => Ends.pure _
  | succ n ih =>
    intro off sz d s h hpool
    refine Ends.ite (fun _ => Ends.pure _) fun _ => ?_
    obtain ⟨hv, hm, -⟩ := Proghdr.ofBytes_lt (readi off Proghdr.size)
    refine Ends.bind (h.loadSegment_ends hpool hv hm) ?_
    rintro ⟨d1, r⟩ t hseg
    cases r with
    | none => exact Ends.pure _
    | some sz1 =>
      have hpool1 := hpool.conserves (loadSegment_ok hv hm h.covers hseg).1
      exact ih (h.segment hpool hv hm hseg).1 hpool1

/-- All segments lie below the running size. -/
theorem Filled.segments {sz' : Nat} :
    ∀ {n off sz : Nat} {d : PageDir} {s : Kmem}, Filled d sz → Pool M s d.own →
      loadSegments M readi n off d sz s = .ok ((d', some sz'), s') →
      Filled d' sz' ∧ sz ≤ sz' ∧
        ∀ ph ∈ (headers readi n off).filter fun ph => ph.type = ELF_PROG_LOAD, ph.stop ≤ sz' := by
  -- by induction on the number of headers left
  intro n
  induction n with
  | zero =>
    intro off sz d s h hpool hrun
    cases hrun
    exact ⟨h, le_rfl, fun ph hph => absurd hph List.not_mem_nil⟩
  | succ n ih =>
    intro off sz d s h hpool hrun
    obtain ⟨d1, sz1, t, hseg, hrest⟩ := loadSegments_some hrun
    obtain ⟨hv, hm, -⟩ := Proghdr.ofBytes_lt (readi off Proghdr.size)
    obtain ⟨hfilled1, hle1, hstop1⟩ := h.segment hpool hv hm hseg
    have hpool1 := hpool.conserves (loadSegment_ok hv hm h.covers hseg).1
    obtain ⟨hfilled, hle, hstop⟩ := ih hfilled1 hpool1 hrest
    refine ⟨hfilled, hle1.trans hle, ?_⟩
    intro ph hph
    rw [headers, List.filter_cons] at hph
    split at hph
    · rename_i htype
      rcases List.mem_cons.mp hph with rfl | hph
      · exact (hstop1 (of_decide_eq_true htype)).trans hle
      · exact hstop ph hph
    · exact hstop ph hph

/-- They are loaded in the order of their headers. -/
theorem Filled.segments_byte {sz' : Nat} (hsize : size < 2 ^ 32) (hx : x < KERNBASE) :
    ∀ {n off sz : Nat} {d : PageDir} {s : Kmem}, Filled d sz → Pool M s d.own →
      loadSegments M (regular f size) n off d sz s = .ok ((d', some sz'), s') →
      d'.byte s' x = ((headers (regular f size) n off).filter fun ph =>
        ph.type = ELF_PROG_LOAD).foldl (Proghdr.put f x) (d.byte s x) := by
  intro n
  induction n with
  | zero =>
    intro off sz d s _ _ hrun
    cases hrun
    rfl
  | succ n ih =>
    intro off sz d s h hpool hrun
    obtain ⟨d1, sz1, t, hseg, hrest⟩ := loadSegments_some hrun
    obtain ⟨hv, hm, hoff⟩ := Proghdr.ofBytes_lt (regular f size off Proghdr.size)
    have hfilled1 := (h.segment hpool hv hm hseg).1
    have hpool1 := hpool.conserves (loadSegment_ok hv hm h.covers hseg).1
    rw [ih hfilled1 hpool1 hrest, h.segment_byte hpool hsize hv hm hoff hseg hx, headers,
      List.filter_cons]
    by_cases htype : (Proghdr.ofBytes (regular f size off Proghdr.size)).type = ELF_PROG_LOAD
    · rw [if_pos htype, if_pos (decide_eq_true htype), List.foldl_cons]
    · rw [if_neg htype, if_neg (by rw [decide_eq_false htype]; exact Bool.false_ne_true)]

end segments

/-! ### The stack -/

section stack

variable {argv : List (List UInt8)} {arg : List UInt8} {sp va len n base : Nat} {ustack : List Nat}

/-- The addresses from here to `KERNBASE` share a page table.  The copies of arguments of less
than a megabyte go there. -/
def stackBase : Nat := 0x7fc00000

theorem stackBase_le : stackBase ≤ KERNBASE := by decide

theorem Comes.above_base (hargs : argBytes argv < 2 ^ 20)
    (h : Comes d argv (KERNBASE - 1) 0 va len) : stackBase ≤ va ∧ va + len ≤ KERNBASE := by
  apply h.bounds (by decide) (by decide)
  unfold stackBase KERNBASE MAXARG
  omega

/-- The page table of the stack page is the one for all of these addresses. -/
theorem Pool.resolves (hpool : Pool M s d.own) (hstack : (d.ent 0x7ffff).present = true)
    (hva : stackBase ≤ va) (hle : va + len ≤ KERNBASE) : Resolves d va len := by
  rintro u ⟨⟨i, hi, rfl⟩, -⟩
  have htable : (va + i) / PGSIZE / 1024 = 0x7ffff / 1024 := by
    simp only [stackBase, KERNBASE, PGSIZE] at *
    omega
  refine ⟨?_, fun hacc => .inl ?_⟩
  · rw [htable]
    exact table_of_present hstack
  · exact (hpool.inRange_of_present (userPage_lt (by omega)) hacc.1).2

theorem pushStack_ends (hpool : Pool M s d.own) (hstack : (d.ent 0x7ffff).present = true)
    (hargs : argBytes argv < 2 ^ 20) : Ends (pushStack d argv) s := by
  rw [pushStack_eq_pushRest]
  have hbounds := fun va len (h : Comes d argv (KERNBASE - 1) 0 va len) => h.above_base hargs
  obtain ⟨r, hr⟩ := (@pushRest_outcome d argv (KERNBASE - 1) [] fun va len h => (hbounds va len h).2).1
    fun va len h => hpool.resolves hstack (hbounds va len h).1 (hbounds va len h).2
  obtain ⟨t, ht⟩ := hr s
  exact ⟨_, ht⟩

/-- A copy writes to the pages it touches. -/
theorem copyout_mem {buf : List UInt8} {p : Nat} (hle : va + buf.length ≤ KERNBASE)
    (hp : ∀ u, Touches va buf.length u → Accessible d u → (d.ent u).ppn ≠ p)
    (h : copyout d va buf s = .ok (true, s')) :
    Copyable d va buf.length ∧ s'.mem p = s.mem p := by
  have hcopies := copyout_copies (d := d) (s := s) hle
  rw [h] at hcopies
  cases hcopies with
  | all hall hfree hbytes hother =>
    refine ⟨hall, funext fun o => hother p o fun i hi heq => ?_⟩
    have htouch : Touches va buf.length ((va + i) / PGSIZE) := ⟨i, hi, rfl⟩
    exact hp _ htouch (hall _ htouch).1 (congrArg Prod.fst heq)

/-- The arguments are written to the pages that the copies touch. -/
theorem pushRest_mem {p sp' : Nat}
    (hlow : ∀ va len, Comes d argv sp ustack.length va len → va + len ≤ KERNBASE)
    (hp : ∀ va len, Comes d argv sp ustack.length va len → ∀ u, Touches va len u →
      Accessible d u → (d.ent u).ppn ≠ p)
    (h : pushRest d argv sp ustack s = .ok (some sp', s')) : s'.mem p = s.mem p := by
  induction argv generalizing sp ustack s with
  | nil =>
    have hlow := hlow _ _ .frame
    have hp := hp _ _ .frame
    rw [← frame_length sp ustack] at hlow hp
    rw [pushRest_nil] at h
    obtain ⟨b, t, hcopy, hret⟩ := bind_eq_ok.mp h
    cases b with
    | false => cases hret
    | true =>
      cases hret
      exact (copyout_mem hlow hp hcopy).2
  | cons arg argv ih =>
    rcases Nat.lt_or_ge ustack.length MAXARG with hmax | hmax
    · have hlen : (arg ++ [0]).length = arg.length + 1 := List.length_append
      have hnext : (ustack ++ [pushed sp arg]).length = ustack.length + 1 := List.length_append
      have hlow1 := hlow _ _ (.arg hmax)
      have hp1 := hp _ _ (.arg hmax)
      rw [← hlen] at hlow1 hp1
      rw [pushRest_cons hmax] at h
      obtain ⟨b, t, hcopy, hrest⟩ := bind_eq_ok.mp h
      cases b with
      | false => cases hrest
      | true =>
        obtain ⟨hall, hmem⟩ := copyout_mem hlow1 hp1 hcopy
        rw [hlen] at hall
        have hlater : ∀ va len, Comes d argv (pushed sp arg)
            (ustack ++ [pushed sp arg]).length va len →
            Comes d (arg :: argv) sp ustack.length va len := by
          intro va len hcomes
          rw [hnext] at hcomes
          exact .later hmax hall hcomes
        rw [ih (fun va len hc => hlow va len (hlater va len hc))
          (fun va len hc => hp va len (hlater va len hc)) hrest, hmem]
    · rw [pushRest_full hmax] at h
      cases h

/-- Nothing below the stack is written. -/
theorem pushStack_byte (hpool : Pool M s d.own) (hargs : argBytes argv < 2 ^ 20) {sp' : Nat}
    (h : pushStack d argv s = .ok (some sp', s')) (hx : x < stackBase) :
    d.byte s' x = d.byte s x := by
  have hxk : x < KERNBASE := hx.trans_le stackBase_le
  by_cases hpx : (d.ent (x / PGSIZE)).present = true
  · rw [byte_of_present hpx, byte_of_present hpx]
    rw [pushStack_eq_pushRest] at h
    rw [pushRest_mem (fun va len hc => (hc.above_base hargs).2) _ h]
    rintro va len hc u ⟨i, hi, rfl⟩ hacc hppn
    obtain ⟨hva, hle⟩ := hc.above_base hargs
    -- the frame of a page below is another one
    have heq := hpool.unshared _ _ (userPage_lt (by omega)) (userPage_lt hxk) hacc.1 hpx hppn
    simp only [stackBase, KERNBASE, PGSIZE] at *
    omega
  · have habs := Bool.eq_false_iff.mpr hpx
    rw [byte_of_absent habs, byte_of_absent habs]

end stack

/-! ### The image -/

section image

variable {argv : List (List UInt8)} {entry : Nat}

/-- Room for the stack page. -/
theorem stackPage_ends (hpool : Pool M s d.own) (habs : (d.ent 0x7ffff).present = false) :
    Ends (allocuvm M d (KERNBASE - 1 - PGSIZE) (KERNBASE - 1)) s := by
  refine Ends.ite (fun _ => Ends.pure _) fun _ => Ends.ite (fun _ => Ends.pure _) fun _ => ?_
  rw [PGROUNDUP_eq_pagesTo (by decide)]
  apply allocLoop_ends (by decide) (by decide) hpool
  intro u hlo hu
  have hpage : u = 0x7ffff := by
    simp only [pagesTo, KERNBASE, PGSIZE] at *
    omega
  rw [hpage]
  exact habs

theorem bad_ends (hpool : Pool M s d.own) : Ends (bad M d) s :=
  Ends.bind (freevm_ends hpool) fun _ _ _ => Ends.pure _

theorem execStack_ends (hk : KernelHalf M d) (hpool : Pool M s d.own)
    (habs : (d.ent 0x7ffff).present = false) (hargs : argBytes argv < 2 ^ 20) :
    Ends (execStack M d entry argv) s := by
  refine Ends.bind (stackPage_ends hpool habs) ?_
  rintro ⟨d1, r⟩ t halloc
  obtain ⟨hc, hsk, hres⟩ := allocuvm_ok (by decide) halloc
  have hpool1 := hpool.conserves hc
  refine Ends.ite (fun _ => bad_ends hpool1) fun hr => ?_
  obtain ⟨-, -, hnew, -, hcover, -⟩ := hres hr
  have hstack : (d1.ent 0x7ffff).present = true := by
    apply hcover
    · decide
    · exact Nat.lt_of_lt_of_le (by decide) hnew
  refine Ends.bind (pushStack_ends hpool1 hstack hargs) fun q t' hpush => ?_
  cases q with
  | none => exact bad_ends (hpool1.conserves (pushStack_conserves (hsk.kernelHalf hk) hpush))
  | some sp => exact Ends.pure _

/-- When the stack part of `exec` succeeds, it got the stack page and pushed the arguments. -/
theorem execStack_some {im : Image} (h : execStack M d entry argv s = .ok (some im, s')) :
    ∃ r t, allocuvm M d (KERNBASE - 1 - PGSIZE) (KERNBASE - 1) s = .ok ((im.pgdir, r), t) ∧
      r ≠ 0 ∧ pushStack im.pgdir argv t = .ok (some im.sp, s') := by
  obtain ⟨⟨d1, r⟩, t, halloc, h1⟩ := bind_eq_ok.mp h
  dsimp only at h1
  by_cases hr : r = 0
  · rw [if_pos hr] at h1
    cases (bad_ok h1).1
  rw [if_neg hr] at h1
  obtain ⟨q, t', hpush, h2⟩ := bind_eq_ok.mp h1
  cases q with
  | none => cases (bad_ok h2).1
  | some sp =>
    cases h2
    exact ⟨r, t, halloc, hr, hpush⟩

/-- The stack goes on top of the segments. -/
theorem execStack_byte {im : Image} (hpool : Pool M s d.own) (hargs : argBytes argv < 2 ^ 20)
    (h : execStack M d entry argv s = .ok (some im, s')) :
    (∀ u, u < 0x7ffff → im.pgdir.ent u = d.ent u) ∧
      ∀ x, x < stackBase → im.pgdir.byte s' x = d.byte s x := by
  obtain ⟨r, t, halloc, hr, hpush⟩ := execStack_some h
  obtain ⟨hc, -, hres⟩ := allocuvm_ok (by decide) halloc
  constructor
  · intro u hu
    apply (hres hr).2.2.2.2.2 u (by omega)
    simp only [KERNBASE, PGSIZE]
    omega
  · intro x hx
    rw [pushStack_byte (hpool.conserves hc) hargs hpush hx]
    unfold allocuvm at halloc
    rw [if_neg (by decide), if_neg (by decide), PGROUNDUP_eq_pagesTo (by decide)] at halloc
    exact allocLoop_byte (by decide) hpool hr halloc x (hx.trans_le stackBase_le)

/-- A directory from `setupkvm` has no user pages. -/
theorem filled_zero (he : ∀ v, v < 2 ^ 20 → d.ent v = kernelEnt M v) : Filled d 0 := by
  refine ⟨by decide, fun u hu => ?_⟩
  rw [he u (Nat.lt_trans hu (by decide)), kernelEnt_user M hu]
  exact iff_of_false Bool.false_ne_true (Nat.not_lt_zero _)

/-- Whatever the file holds and however few pages are free, the image is built or given up. -/
theorem execImage_ends {readi : Nat → Nat → List UInt8} (hpool : Pool M s nothing)
    (hargs : argBytes argv < 2 ^ 20) : Ends (execImage M readi argv) s := by
  refine Ends.ite (fun _ => Ends.pure _) fun _ => Ends.ite (fun _ => Ends.pure _) fun _ => ?_
  refine Ends.bind (setupkvm_ends hpool) fun q t hset => ?_
  rcases setupkvm_ok hset with ⟨d, rfl, hc, he⟩ | ⟨rfl, hc⟩
  · have hpool1 := hpool.conserves hc
    have hfilled := filled_zero he
    have hk : KernelHalf M d := fun v _ hv => he v hv
    refine Ends.bind (hfilled.loadSegments_ends hpool1) ?_
    rintro ⟨d1, r⟩ t1 hsegs
    obtain ⟨hc1, hsk⟩ := loadSegments_ok hfilled.covers hsegs
    have hpool2 := hpool1.conserves hc1
    cases r with
    | none => exact bad_ends hpool2
    | some sz =>
      have hfilled1 := (hfilled.segments hpool1 hsegs).1
      exact execStack_ends (hsk.kernelHalf hk) hpool2 (hfilled1.stack_absent hpool2) hargs
  · exact Ends.pure _

/-- When `exec` builds an image, it loaded the segments into a directory without user pages. -/
theorem execImage_some {readi : Nat → Nat → List UInt8} {im : Image} (hpool : Pool M s nothing)
    (h : execImage M readi argv s = .ok (some im, s')) :
    ∃ elf d t d1 sz t1, elf = Elfhdr.ofBytes (readi 0 Elfhdr.size) ∧
      (∀ v, v < 2 ^ 20 → d.ent v = kernelEnt M v) ∧ Pool M t d.own ∧
      loadSegments M readi elf.phnum elf.phoff d 0 t = .ok ((d1, some sz), t1) ∧
      Pool M t1 d1.own ∧ execStack M d1 elf.entry argv t1 = .ok (some im, s') := by
  unfold execImage at h
  dsimp only at h
  split_ifs at h with hlen hmagic
  · cases h
  · cases h
  obtain ⟨q, t, hset, h1⟩ := bind_eq_ok.mp h
  rcases setupkvm_ok hset with ⟨d, rfl, hc, he⟩ | ⟨rfl, hc⟩
  · obtain ⟨⟨d1, r⟩, t1, hsegs, h2⟩ := bind_eq_ok.mp h1
    have hpool1 := hpool.conserves hc
    cases r with
    | none => cases (bad_ok h2).1
    | some sz =>
      have hkept := (loadSegments_ok (filled_zero he).covers hsegs).1
      exact ⟨_, d, t, d1, sz, t1, rfl, he, hpool1, hsegs, hpool1.conserves hkept, h2⟩
  · cases h1

/-- The segments of the file are in the image, and zeros around them. -/
theorem execImage_loaded {im : Image} (hsize : size < 2 ^ 32) (hpool : Pool M s nothing)
    (hargs : argBytes argv < 2 ^ 20)
    (h : execImage M (regular f size) argv s = .ok (some im, s')) :
    ∀ ph ∈ loaded (regular f size), ∀ x, x < ph.stop →
      x < KERNBASE ∧ (im.pgdir.ent (x / PGSIZE)).present = true ∧
        im.pgdir.byte s' x = imageByte f (loaded (regular f size)) x := by
  obtain ⟨_, d, t, d1, sz, t1, rfl, he, hpool1, hsegs, hpool2, hstk⟩ := execImage_some hpool h
  obtain ⟨hfilled1, -, hstop⟩ := (filled_zero he).segments hpool1 hsegs
  obtain ⟨hent, hstack⟩ := execStack_byte hpool2 hargs hstk
  intro ph hph x hx
  have hxsz : x < sz := hx.trans_le (hstop ph hph)
  have htop := hfilled1.le_physTop hpool2
  have hxk : x < KERNBASE := Nat.lt_trans hxsz hfilled1.low
  refine ⟨hxk, ?_, ?_⟩
  · rw [hent _ (by simp only [PHYSTOP, PGSIZE] at *; omega), hfilled1.present _ (userPage_lt hxk)]
    exact Nat.lt_of_le_of_lt (Nat.div_mul_le_self _ _) hxsz
  · rw [hstack x (by simp only [PHYSTOP, stackBase, KERNBASE] at *; omega),
      (filled_zero he).segments_byte hsize hxk hpool1 hsegs, byte_of_absent, imageByte, loaded]
    rw [he _ (Nat.lt_trans (userPage_lt hxk) (by decide)), kernelEnt_user M (userPage_lt hxk)]
    rfl

end image

end Vm
end Xv6
