import Xv6.Vm.Copyout
import Xv6.Vm.Shrink
import Xv6.Vm.Total

/-!
# The segments of a program (`exec.c`)

`loaded` lists the segments that `exec` loads from a file.  `exec` succeeds on a file with one
segment when there are pages for it: `execImage_total`.  The segment takes no bytes from the
file, which is what the uninitialised data of a program looks like.
-/

namespace Xv6
namespace Vm

open Lib Lib.Exec Function

/-- The `n` program headers from file offset `off` on. -/
def headers (readi : Nat → Nat → List UInt8) : Nat → Nat → List Proghdr
  | 0, _ => []
  | n + 1, off =>
    Proghdr.ofBytes (readi off Proghdr.size) ::
      headers readi n ((off + Proghdr.size) % 2 ^ 32)

/-- The segments that `exec` loads from a file. -/
def loaded (readi : Nat → Nat → List UInt8) : List Proghdr :=
  let elf := Elfhdr.ofBytes (readi 0 Elfhdr.size)
  (headers readi elf.phnum elf.phoff).filter fun ph => ph.type = ELF_PROG_LOAD

/-- The first address after a segment. -/
def Proghdr.stop (ph : Proghdr) : Nat := ph.vaddr + ph.memsz

variable {M : Machine} {s s' : Kmem} {d d' : PageDir}

/-! ### `freevm` of an empty directory -/

/-- Where no page is present, `deallocuvm` has nothing to free. -/
theorem deallocLoop_absent {oldsz v n fuel : Nat} (hold : oldsz ≤ KERNBASE)
    (hn : v + n = pagesTo oldsz) (hfuel : n < fuel)
    (habs : ∀ u, (d.ent u).present = false) :
    deallocLoop M oldsz fuel d (v * PGSIZE) s = .ok (d, s) := by
  -- by induction on the number of pages left
  induction n generalizing v fuel with
  | zero =>
    obtain ⟨fuel, rfl⟩ : ∃ m, fuel = m + 1 := ⟨fuel - 1, by omega⟩
    apply deallocLoop_end
    rw [← lt_pagesTo]
    omega
  | succ n ih =>
    obtain ⟨fuel, rfl⟩ : ∃ m, fuel = m + 1 := ⟨fuel - 1, by omega⟩
    have hlt : v * PGSIZE < oldsz := by
      rw [← lt_pagesTo]
      omega
    have hv : v < 2 ^ 20 := by
      unfold PGSIZE KERNBASE at *
      omega
    rw [deallocLoop_turn hold hlt, bind_of_ok (deallocPage_absent hv (habs v) s)]
    exact ih (by omega) (by omega)

theorem freeTables_none (habs : ∀ i, d.pde i = none) (n : Nat) :
    freeTables M d n s = .ok ((), s) := by
  induction n with
  | zero => rfl
  | succ n ih =>
    rw [freeTables, bind_of_ok ih, habs n]
    rfl

variable {m page : Nat}

/-- Only the page of the directory goes back. -/
theorem freevm_empty (hpage : M.InRange page) :
    ∃ t, freevm M (PageDir.empty page) s = .ok ((), t) := by
  have habs : ∀ u, ((PageDir.empty page).ent u).present = false := fun u => by
    simp [PageDir.empty, PageDir.ent]
  have hloop : deallocLoop M KERNBASE (2 ^ 20 + 1) (PageDir.empty page) (0 * PGSIZE) s =
      .ok (PageDir.empty page, s) :=
    deallocLoop_absent le_rfl (Nat.zero_add (pagesTo KERNBASE)) (by decide) habs
  have hdealloc : deallocuvm M (PageDir.empty page) KERNBASE 0 s =
      .ok ((PageDir.empty page, 0), s) := by
    rw [deallocuvm, if_neg (by decide), show PGROUNDDOWN 0 = 0 * PGSIZE from rfl, bind_of_ok hloop]
    rfl
  have htables : freeTables M (PageDir.empty page) NPDENTRIES s = .ok ((), s) :=
    freeTables_none (fun _ => rfl) NPDENTRIES
  have hret : Returns (freevm M (PageDir.empty page)) s fun _ _ => True := by
    refine .bind (.of_ok hdealloc (.bind (.of_ok htables ?_)))
    show Returns (kfree M page) s _
    rw [kfree, if_pos hpage]
    exact .of_ok rfl trivial
  obtain ⟨_, t, hrun, -⟩ := hret
  exact ⟨t, hrun⟩

/-- A single free page is not enough for the kernel's part of a directory. -/
theorem setupkvm_starved (mem : Nat → Nat → UInt8) (hpage : M.InRange page) :
    ∃ t, setupkvm M ⟨[page], mem⟩ = .ok (none, t) := by
  have hret : Returns (setupkvm M) ⟨[page], mem⟩ fun r _ => r = none := by
    refine .bind (.of_ok rfl (.bind (.of_ok rfl ?_)))
    rw [if_neg (by decide)]
    have hmap : mappages (PageDir.empty page) KERNBASE (toUint ((EXTMEM : Int) - (0 : Nat)))
        (0 / PGSIZE) PTE_W ⟨[], update mem page fun _ => 0⟩ =
          .ok ((PageDir.empty page, false), ⟨[], update mem page fun _ => 0⟩) := rfl
    obtain ⟨t, hfree⟩ := freevm_empty (M := M) (s := ⟨[], update mem page fun _ => 0⟩) hpage
    exact .bind (.of_ok hmap (.bind (.of_ok hfree (.of_ok rfl rfl))))
  obtain ⟨_, t, hrun, rfl⟩ := hret
  exact ⟨t, hrun⟩

/-! ### A file with one segment -/

variable {readi : Nat → Nat → List UInt8}

/-- The segment, from address 0 on, gets its pages. -/
theorem loadSegment_total {ph : Proghdr}
    (hph : ph = ⟨ELF_PROG_LOAD, 0, 0, 0, m * PGSIZE⟩) (hm : 0 < m ∧ m < userPages)
    (habs : ∀ u, u < m → (d.ent u).present = false) (hlen : 2 * m ≤ s.freelist.length) :
    ∃ d' t, loadSegment M readi d 0 ph s = .ok ((d', some (m * PGSIZE)), t) ∧
      Spends (2 * m) s t ∧ ∀ u, m ≤ u → u < 2 ^ 20 → d'.ent u = d.ent u := by
  have hsmall : m * PGSIZE < KERNBASE := by
    unfold userPages at hm
    unfold PGSIZE KERNBASE
    omega
  have hword : (0 + m * PGSIZE) % 2 ^ 32 = m * PGSIZE := by
    unfold KERNBASE at hsmall
    omega
  obtain ⟨d', t, hloop, hspends⟩ : ∃ d' t, allocLoop M 0 ((0 + m) * PGSIZE) (2 ^ 20) d (0 * PGSIZE) s =
      .ok ((d', (0 + m) * PGSIZE), t) ∧ Spends (2 * (0 + m - 0)) s t := by
    unfold userPages at hm
    apply allocLoop_total
    · unfold userPages
      omega
    · exact le_rfl
    · omega
    · omega
    · intro u _ hu
      exact habs u (by omega)
    · omega
  rw [Nat.zero_add, Nat.zero_mul] at hloop
  have halloc : allocuvm M d 0 (m * PGSIZE) s = .ok ((d', m * PGSIZE), t) := by
    unfold allocuvm
    rw [if_neg (Nat.not_le.mpr hsmall), if_neg (Nat.not_lt_zero _)]
    exact hloop
  have hpos : m * PGSIZE ≠ 0 := by
    unfold PGSIZE
    omega
  refine ⟨d', t, ?_, by simpa using hspends, ?_⟩
  · rw [hph]
    unfold loadSegment
    rw [if_neg (by simp), if_neg (by simp), if_neg (by simp)]
    dsimp only
    rw [hword, bind_of_ok halloc]
    dsimp only
    rw [if_neg hpos, if_neg (by simp)]
    rfl
  · intro u hmu hu
    refine (allocuvm_ok (by decide) halloc).2.2 hpos |>.2.2.2.2.2 u hu (.inr ?_)
    unfold PGSIZE
    omega

/-- The loop of `allocuvm`, when one page is enough. -/
theorem allocLoop_one {oldsz newsz fuel a : Nat} {t : Kmem} (hlt : a < newsz)
    (hge : newsz ≤ a + PGSIZE) (hk : kalloc s = .ok (some page, t))
    (hmap : mappages d a PGSIZE page (PTE_W ||| PTE_U)
      { t with mem := update t.mem page fun _ => 0 } = .ok ((d', true), s')) :
    allocLoop M oldsz newsz (fuel + 2) d a s = .ok ((d', newsz), s') := by
  rw [allocLoop, if_pos hlt, bind_of_ok hk]
  dsimp only
  rw [bind_of_ok (show fillPage page 0 t = .ok ((), _) from rfl), bind_of_ok hmap]
  dsimp only
  rw [if_pos rfl, allocLoop, if_neg (Nat.not_lt.mpr hge)]
  rfl

/-- The stack gets its page. -/
theorem stackPage_total (habs : (d.ent 0x7ffff).present = false) (hlen : 2 ≤ s.freelist.length) :
    ∃ d' t page, allocuvm M d (KERNBASE - 1 - PGSIZE) (KERNBASE - 1) s =
      .ok ((d', KERNBASE - 1), t) ∧ page ∈ s.freelist ∧
      d'.ent 0x7ffff = ⟨page, PTE_W ||| PTE_U ||| PTE_P⟩ := by
  obtain ⟨page, t, d', t', hk, hmap, -⟩ := take_map_total (s := s) (v := 0x7ffff)
    (PTE_W ||| PTE_U) (fun _ _ => 0) (by decide) habs hlen
  have hent := (mappages_user_ok (by decide) hmap).1.ent 0x7ffff (by decide)
  rw [if_pos ⟨rfl, rfl⟩] at hent
  refine ⟨d', t', page, ?_, ?_, hent⟩
  · unfold allocuvm
    rw [if_neg (by decide), if_neg (by decide), show PGROUNDUP (KERNBASE - 1 - PGSIZE) =
      0x7ffff * PGSIZE by decide]
    exact allocLoop_one (by decide) (by decide) hk hmap
  · rcases kalloc_cases s with ⟨-, hnone⟩ | ⟨page', rest, hcons, hrun⟩
    · rw [hnone] at hk
      cases hk
    · rw [hrun] at hk
      cases hk
      rw [hcons]
      exact List.mem_cons_self

/-! ### The arguments -/

section arguments

variable {argv : List (List UInt8)} {arg : List UInt8} {sp va len n base : Nat} {ustack : List Nat}

/-- The bytes of the arguments, with their terminators. -/
def argBytes (argv : List (List UInt8)) : Nat := (argv.map fun arg => arg.length + 1).sum

theorem pushed_bounds (hroom : arg.length + 1 ≤ sp) (hsp : sp < KERNBASE) :
    sp ≤ pushed sp arg + (arg.length + 1) + 3 ∧ pushed sp arg + (arg.length + 1) ≤ sp := by
  unfold KERNBASE at hsp
  unfold pushed
  rw [toUint_of_nonneg (by omega) (by omega)]
  omega

/-- Every copy to the stack lies between `base` and `KERNBASE`. -/
theorem Comes.bounds (h : Comes d argv sp n va len) (hn : n ≤ MAXARG) (hsp : sp < KERNBASE)
    (hroom : base + argBytes argv + 3 * (MAXARG - n) + (3 + MAXARG + 1) * 4 ≤ sp) :
    base ≤ va ∧ va + len ≤ KERNBASE := by
  -- by induction on the arguments already pushed when the copy is made
  induction h with
  | @frame sp n =>
    unfold KERNBASE at *
    rw [toUint_of_nonneg (by omega) (by omega)]
    omega
  | @arg sp n arg argv hmax =>
    rw [argBytes, List.map_cons, List.sum_cons] at hroom
    have := @pushed_bounds arg sp (by omega) hsp
    omega
  | @later sp n va len arg argv hmax hcopy h ih =>
    rw [argBytes, List.map_cons, List.sum_cons] at hroom
    have hpush := @pushed_bounds arg sp (by omega) hsp
    apply ih (by omega) (by omega)
    rw [argBytes]
    omega

theorem Copyable.resolves (h : Copyable d va len) : Resolves d va len := by
  intro u hu
  obtain ⟨hacc, hram⟩ := h u hu.1
  exact ⟨table_of_present hacc.1, fun _ => .inl hram⟩

theorem copyout_total {buf : List UInt8} (hlen : buf.length = len) (hle : va + len ≤ KERNBASE)
    (h : Copyable d va len) : Settles (copyout d va buf) true := by
  classical
  subst hlen
  have hsettles := copyout_settles hle h.resolves
  rwa [decide_eq_true h] at hsettles

/-- Where no copy is refused, `exec` gets to the end of the stack. -/
theorem pushRest_total (hmax : ustack.length + argv.length ≤ MAXARG)
    (h : ∀ va len, Comes d argv sp ustack.length va len → va + len ≤ KERNBASE ∧ Copyable d va len) :
    ∃ sp', Settles (pushRest d argv sp ustack) (some sp') := by
  induction argv generalizing sp ustack with
  | nil =>
    obtain ⟨hle, hcopy⟩ := h _ _ .frame
    rw [pushRest_nil]
    exact ⟨_, (copyout_total (frame_length sp ustack) hle hcopy).bind (.pure _)⟩
  | cons arg argv ih =>
    rw [List.length_cons] at hmax
    obtain ⟨hle, hcopy⟩ := h _ _ (.arg (by omega))
    have hnext : (ustack ++ [pushed sp arg]).length = ustack.length + 1 := List.length_append
    obtain ⟨sp', hrest⟩ := @ih (pushed sp arg) (ustack ++ [pushed sp arg]) (by omega)
      fun va len hlater => h va len (.later (by omega) hcopy (hnext ▸ hlater))
    rw [pushRest_cons (by omega)]
    exact ⟨sp', (copyout_total List.length_append hle hcopy).bind hrest⟩

/-- Short arguments fit into the stack page. -/
theorem pushStack_total {page : Nat} (hram : page < PHYSTOP / PGSIZE)
    (hent : d.ent 0x7ffff = ⟨page, PTE_W ||| PTE_U ||| PTE_P⟩)
    (hargs : argv.length ≤ MAXARG ∧ argBytes argv ≤ 0xe00) :
    ∃ sp, Settles (pushStack d argv) (some sp) := by
  apply pushRest_total (by simpa using hargs.1)
  intro va len hcomes
  obtain ⟨hlow, hle⟩ : 0x7ffff * PGSIZE ≤ va ∧ va + len ≤ KERNBASE := by
    apply hcomes.bounds (by decide) (by decide)
    unfold PGSIZE KERNBASE MAXARG
    omega
  refine ⟨hle, ?_⟩
  rintro u ⟨i, hi, rfl⟩
  have hpage : (va + i) / PGSIZE = 0x7ffff := by
    unfold PGSIZE KERNBASE at *
    omega
  rw [hpage, Accessible, InRam, hent]
  exact ⟨⟨by simp [Pte.present, PTE_W, PTE_U, PTE_P], by simp [Pte.user, PTE_W, PTE_U, PTE_P]⟩, hram⟩

end arguments

/-- The file has one header, of a segment of `m` pages from address 0 on. -/
structure OneSegment (readi : Nat → Nat → List UInt8) (m : Nat) : Prop where
  elfLength : (readi 0 Elfhdr.size).length = Elfhdr.size
  elf : Elfhdr.ofBytes (readi 0 Elfhdr.size) = ⟨ELF_MAGIC, 0, 52, 1⟩
  length : (readi 52 Proghdr.size).length = Proghdr.size
  segment : Proghdr.ofBytes (readi 52 Proghdr.size) = ⟨ELF_PROG_LOAD, 0, 0, 0, m * PGSIZE⟩

theorem OneSegment.loaded_eq (h : OneSegment readi m) :
    loaded readi = [⟨ELF_PROG_LOAD, 0, 0, 0, m * PGSIZE⟩] := by
  simp [loaded, h.elf, headers, h.segment]

/-- `exec` succeeds where there are pages. -/
theorem execImage_total {argv : List (List UInt8)}
    (hfile : OneSegment readi m) (hm : 0 < m ∧ m < 0x7ffff)
    (hargs : argv.length ≤ MAXARG ∧ argBytes argv ≤ 0xe00)
    (hlen : setupCost + 2 * m + 2 ≤ s.freelist.length)
    (hram : ∀ p ∈ s.freelist, p < PHYSTOP / PGSIZE) :
    ∃ im t, execImage M readi argv s = .ok (some im, t) := by
  obtain ⟨d, t, hset, hspends⟩ := setupkvm_total (M := M) (s := s) (by omega)
  have hleft : s.freelist.length ≤ t.freelist.length + setupCost := hspends
  rcases setupkvm_ok hset with ⟨d0, hd0, hcons, hent⟩ | ⟨hnone, -⟩
  swap
  · cases hnone
  cases hd0
  have habs : ∀ u, u < userPages → (d.ent u).present = false := by
    intro u hu
    rw [hent u (Nat.lt_trans hu (by decide)), kernelEnt_user M hu]
    rfl
  obtain ⟨d1, t1, hseg, hspends1, hsame⟩ : ∃ d1 t1,
      loadSegment M readi d 0 (Proghdr.ofBytes (readi 52 Proghdr.size)) t =
        .ok ((d1, some (m * PGSIZE)), t1) ∧ Spends (2 * m) t t1 ∧
      ∀ u, m ≤ u → u < 2 ^ 20 → d1.ent u = d.ent u := by
    have hlow : m < userPages := by
      unfold userPages
      omega
    have hfirst : ∀ u, u < m → (d.ent u).present = false := fun u hu =>
      habs u (Nat.lt_trans hu hlow)
    exact loadSegment_total hfile.segment ⟨hm.1, hlow⟩ hfirst (by omega)
  have hleft1 : t.freelist.length ≤ t1.freelist.length + 2 * m := hspends1
  have hsegs : loadSegments M readi 1 52 d 0 t = .ok ((d1, some (m * PGSIZE)), t1) := by
    unfold loadSegments
    dsimp only
    rw [if_neg (not_not_intro hfile.length), bind_of_ok hseg]
    rfl
  obtain ⟨d2, t2, page, hstack, hpage, hent2⟩ := stackPage_total (M := M) (d := d1) (s := t1)
    (by rw [hsame _ (by omega) (by decide)]; exact habs _ (by decide)) (by omega)
  -- the page of the stack was free at the start
  have hfree : page ∈ s.freelist := by
    have hcov : Covers d 0 := ⟨by decide, fun u hu => by omega⟩
    have hledger := (hcons.trans (loadSegments_ok hcov hsegs).1).ledger page
    have hpos : 0 < t1.free page := List.count_pos_iff.mpr hpage
    apply List.count_pos_iff.mp
    show 0 < s.free page
    unfold nothing at hledger
    omega
  obtain ⟨sp, hpush⟩ := pushStack_total (hram page hfree) hent2 hargs
  obtain ⟨t3, hpush⟩ := hpush t2
  refine ⟨⟨d2, PGROUNDDOWN 0x3000, 0, sp⟩, t3, ?_⟩
  unfold execImage
  rw [hfile.elf]
  dsimp only
  rw [if_neg (not_not_intro hfile.elfLength), if_neg (not_not_intro rfl), bind_of_ok hset]
  dsimp only
  rw [bind_of_ok hsegs]
  dsimp only
  unfold execStack
  rw [bind_of_ok hstack]
  dsimp only
  rw [if_neg (by decide), bind_of_ok hpush]
  rfl

end Vm
end Xv6
