import Xv6.Vm.Conserve
import Xv6.Vm.Image

/-!
# Copying to user memory (`vm.c`, `exec.c`)

`copyout` goes from page to page and asks `uva2ka` for each.  `uva2ka` reads the page-table
entry without asking whether `walkpgdir` found a page table, so an address below a missing
table is looked up through a null pointer.  `copyout_exact` says that this is the only way
in which `copyout` fails to copy exactly, apart from directories that map one page at two
of the addresses, or a page that is not memory.
-/

namespace Xv6
namespace Vm

open Lib Lib.Exec Function

/-- Page `u` holds one of the `len` bytes from `va` on. -/
def Touches (va len u : Nat) : Prop := ∃ i, i < len ∧ (va + i) / PGSIZE = u

/-- Page `u` is present, for user code. -/
def Accessible (d : PageDir) (u : Nat) : Prop :=
  (d.ent u).present = true ∧ (d.ent u).user = true

/-- Page `u` is mapped to physical memory. -/
def InRam (d : PageDir) (u : Nat) : Prop := (d.ent u).ppn < PHYSTOP / PGSIZE

/-- The kernel address of page `u` wraps around to the null pointer. -/
def Null (d : PageDir) (u : Nat) : Prop := P2V ((d.ent u).ppn * PGSIZE) % 2 ^ 32 = 0

/-- The physical byte at a user address: its page and the offset in it. -/
def phys (d : PageDir) (x : Nat) : Nat × Nat := ((d.ent (x / PGSIZE)).ppn, x % PGSIZE)

/-- The bytes of the target are the source, and no other byte has changed. -/
structure CopiedOut (d : PageDir) (va : Nat) (buf : List UInt8) (s s' : Kmem) : Prop where
  freelist : s'.freelist = s.freelist
  bytes : ∀ i b, buf[i]? = some b → s'.mem (phys d (va + i)).1 (phys d (va + i)).2 = b
  other : ∀ p o, (∀ i, i < buf.length → phys d (va + i) ≠ (p, o)) → s'.mem p o = s.mem p o

/-- What `copyout` is for. -/
def ExactCopy (d : PageDir) (va : Nat) (buf : List UInt8) (s : Kmem) : Prop :=
  ∃ r s', copyout d va buf s = .ok (r, s') ∧
    (r = true ↔ ∀ u, Touches va buf.length u → Accessible d u) ∧
    (r = true → CopiedOut d va buf s s')

/-- `copyout` comes to page `u`. -/
def Reached (d : PageDir) (va len u : Nat) : Prop :=
  Touches va len u ∧ ∀ v, Touches va len v → v < u → Accessible d v ∧ InRam d v

/-- A page that `copyout` comes to has a page table, and is memory if it is mapped. -/
def Resolves (d : PageDir) (va len : Nat) : Prop :=
  ∀ u, Reached d va len u → (d.pde (u / 1024)).isSome = true ∧
    (Accessible d u → InRam d u ∨ Null d u)

/-- Where the null pointer turns the copy down, some page is not accessible. -/
def NullRefused (d : PageDir) (va len : Nat) : Prop :=
  ∀ u, Reached d va len u → Accessible d u → Null d u → ∃ v, Touches va len v ∧ ¬Accessible d v

/-- Addresses of one physical byte get one value. -/
def Consistent (d : PageDir) (va : Nat) (buf : List UInt8) : Prop :=
  (∀ u, Touches va buf.length u → Accessible d u) → ∀ i j b c, buf[i]? = some b →
    buf[j]? = some c → phys d (va + i) = phys d (va + j) → b = c

instance (d : PageDir) (u : Nat) : Decidable (Accessible d u) :=
  inferInstanceAs (Decidable (_ ∧ _))

instance (d : PageDir) (u : Nat) : Decidable (Null d u) :=
  inferInstanceAs (Decidable (_ = _))

instance (d : PageDir) (u : Nat) : Decidable (InRam d u) :=
  inferInstanceAs (Decidable (_ < _))

variable {d : PageDir} {s s' : Kmem} {u va : Nat} {buf : List UInt8}

theorem InRam.not_null (h : InRam d u) : ¬Null d u := by
  unfold InRam PHYSTOP PGSIZE at h
  unfold Null P2V PGSIZE KERNBASE
  omega

/-- `uva2ka` at a page. -/
theorem uva2ka_page (hu : u < 2 ^ 20) : uva2ka d (u * PGSIZE) s = if (d.pde (u / 1024)).isSome then
      .ok (if Accessible d u ∧ ¬Null d u then some (d.ent u).ppn else none, s)
    else .error .wild := by
  have hvpn : vpn (u * PGSIZE) = u := vpn_mul_PGSIZE hu
  have hpte : d.pte (u * PGSIZE) = d.ent u := by rw [PageDir.pte_eq_ent, hvpn]
  have hpdx : PDX (u * PGSIZE) = u / 1024 := by rw [PDX_eq_vpn, hvpn]
  unfold uva2ka
  rw [bind_of_ok (walkpgdir_noalloc d (u * PGSIZE) s), hpdx, hpte]
  cases (d.pde (u / 1024)).isSome with
  | false => rfl
  | true =>
    dsimp only
    rw [if_pos rfl, if_pos rfl]
    by_cases hp : (d.ent u).present = true
    · by_cases hus : (d.ent u).user = true
      · rw [if_neg (by rw [hp]; nofun), if_neg (by rw [hus]; nofun)]
        unfold Accessible Null
        by_cases hnull : P2V ((d.ent u).ppn * PGSIZE) % 2 ^ 32 = 0
        · rw [if_pos hnull, if_neg (not_and_not_right.mpr fun _ => hnull)]
          rfl
        · rw [if_neg hnull, if_pos ⟨⟨hp, hus⟩, hnull⟩]
          rfl
      · rw [if_neg (by rw [hp]; nofun), if_pos (Bool.eq_false_iff.mpr hus),
          if_neg fun h : Accessible d u ∧ ¬Null d u => hus h.1.2]
        rfl
    · rw [if_pos (Bool.eq_false_iff.mpr hp), if_neg fun h : Accessible d u ∧ ¬Null d u => hp h.1.1]
      rfl

/-- How the copy of `buf` to `va` ends. -/
inductive Copies (d : PageDir) (va : Nat) (buf : List UInt8) (s : Kmem) :
    Except Stop (Bool × Kmem) → Prop
  /-- All is copied.  Of several values for one byte, one is stored. -/
  | all {s' : Kmem} (hall : ∀ u, Touches va buf.length u → Accessible d u ∧ InRam d u)
      (hfree : s'.freelist = s.freelist)
      (hbytes : ∀ p o, (∃ i, i < buf.length ∧ phys d (va + i) = (p, o)) →
        ∃ i b, buf[i]? = some b ∧ phys d (va + i) = (p, o) ∧ s'.mem p o = b)
      (hother : ∀ p o, (∀ i, i < buf.length → phys d (va + i) ≠ (p, o)) →
        s'.mem p o = s.mem p o) : Copies d va buf s (.ok (true, s'))
  /-- A page is not accessible, or its address is null. -/
  | refused {s' : Kmem} {u : Nat} (hreach : Reached d va buf.length u)
      (htable : (d.pde (u / 1024)).isSome = true) (hnot : ¬Accessible d u ∨ Null d u) :
      Copies d va buf s (.ok (false, s'))
  /-- A page table is missing, or a page is not memory. -/
  | wild {u : Nat} (hreach : Reached d va buf.length u)
      (hbad : (d.pde (u / 1024)).isSome = false ∨ Accessible d u ∧ ¬InRam d u ∧ ¬Null d u) :
      Copies d va buf s (.error .wild)

/-- Nothing to copy. -/
theorem Copies.nil : Copies d va [] s (.ok (true, s)) := by
  refine .all ?_ rfl ?_ fun _ _ _ => rfl
  · rintro u ⟨i, hi, _⟩
    cases hi
  · rintro p o ⟨i, hi, _⟩
    cases hi

/-- The first page is reached. -/
theorem reached_first {len : Nat} : Reached d va (len + 1) (va / PGSIZE) := by
  refine ⟨⟨0, Nat.succ_pos _, rfl⟩, ?_⟩
  rintro v ⟨i, _, rfl⟩ hlt
  have hle : va / PGSIZE ≤ (va + i) / PGSIZE := Nat.div_le_div_right (Nat.le_add_right va i)
  omega

/-- The first `n` bytes lie on one page and the others start the next. -/
theorem touches_split {n len v : Nat} (hn : n = min (PGSIZE - va % PGSIZE) len) :
    Touches va len v ↔ (0 < len ∧ v = va / PGSIZE) ∨
      Touches ((va / PGSIZE + 1) * PGSIZE) (len - n) v := by
  unfold Touches PGSIZE at *
  constructor
  · rintro ⟨i, hi, rfl⟩
    by_cases hin : i < n
    · left
      omega
    · right
      refine ⟨i - n, by omega, ?_⟩
      omega
  · rintro (⟨hpos, rfl⟩ | ⟨i, hi, rfl⟩)
    · exact ⟨0, hpos, rfl⟩
    · refine ⟨i + n, by omega, ?_⟩
      omega

/-- The memory after bytes of a page were overwritten. -/
def written (s : Kmem) (page off : Nat) (bs : List UInt8) : Kmem :=
  { s with
    mem := update s.mem page fun i =>
      if off ≤ i ∧ i < off + bs.length then bs.getD (i - off) 0 else s.mem page i }

theorem written_mem (s : Kmem) (page off : Nat) (bs : List UInt8) (p o : Nat) :
    (written s page off bs).mem p o =
      if p = page ∧ off ≤ o ∧ o < off + bs.length then bs.getD (o - off) 0 else s.mem p o := by
  unfold written
  dsimp only
  by_cases hp : p = page
  · subst hp
    rw [update_self]
    simp
  · rw [update_of_ne hp, if_neg fun h => hp h.1]

/-- How many bytes a turn copies. -/
def chunk (va len : Nat) : Nat := min (PGSIZE - va % PGSIZE) len

/-- One turn of the loop. -/
theorem copyoutLoop_turn {fuel : Nat} {b : UInt8} {bs : List UInt8}
    (hle : va + (b :: bs).length ≤ KERNBASE) : copyoutLoop d (fuel + 1) va (b :: bs) s =
    if (d.pde (va / PGSIZE / 1024)).isSome then
      if Accessible d (va / PGSIZE) ∧ ¬Null d (va / PGSIZE) then
        if InRam d (va / PGSIZE) then
          copyoutLoop d fuel ((va / PGSIZE + 1) * PGSIZE)
            ((b :: bs).drop (chunk va (b :: bs).length))
            (written s (d.ent (va / PGSIZE)).ppn (va % PGSIZE)
              ((b :: bs).take (chunk va (b :: bs).length)))
        else .error .wild
      else .ok (false, s)
    else .error .wild := by
  have hva : va < KERNBASE := by
    rw [List.length_cons] at hle
    omega
  have hu : va / PGSIZE < 2 ^ 20 := by
    unfold KERNBASE at hva
    unfold PGSIZE
    omega
  have hoff : va - PGROUNDDOWN va = va % PGSIZE := by
    unfold PGROUNDDOWN PGSIZE
    omega
  have hnext : (PGROUNDDOWN va + PGSIZE) % 2 ^ 32 = (va / PGSIZE + 1) * PGSIZE := by
    unfold PGROUNDDOWN PGSIZE
    unfold KERNBASE at hva
    omega
  have huva : uva2ka d (PGROUNDDOWN va) s = if (d.pde (va / PGSIZE / 1024)).isSome then
      .ok (if Accessible d (va / PGSIZE) ∧ ¬Null d (va / PGSIZE) then
        some (d.ent (va / PGSIZE)).ppn else none, s)
      else .error .wild := uva2ka_page hu
  rw [copyoutLoop, hnext, hoff]
  by_cases htable : (d.pde (va / PGSIZE / 1024)).isSome = true
  · rw [if_pos htable] at huva
    rw [if_pos htable, bind_of_ok huva]
    by_cases hacc : Accessible d (va / PGSIZE) ∧ ¬Null d (va / PGSIZE)
    · rw [if_pos hacc, if_pos hacc]
      by_cases hram : InRam d (va / PGSIZE)
      · rw [if_pos hram]
        exact congrFun (if_neg (Nat.not_le.mpr hram)) s
      · rw [if_neg hram]
        exact congrFun (if_pos (Nat.not_lt.mp hram)) s
    · rw [if_neg hacc, if_neg hacc]
      rfl
  · rw [if_neg htable] at huva
    rw [if_neg htable, bind_of_error huva]

/-- The bytes of a turn. -/
theorem phys_chunk {i len : Nat} (hi : i < chunk va len) :
    phys d (va + i) = ((d.ent (va / PGSIZE)).ppn, va % PGSIZE + i) := by
  unfold chunk at hi
  unfold phys PGSIZE at *
  have hpage : (va + i) / 4096 = va / 4096 := by omega
  have hoff : (va + i) % 4096 = va % 4096 + i := by omega
  rw [hpage, hoff]

/-- The bytes after it. -/
theorem addr_rest {i len : Nat} (hi : i < len - chunk va len) :
    (va / PGSIZE + 1) * PGSIZE + i = va + (chunk va len + i) := by
  unfold chunk PGSIZE at *
  omega

/-- The first page is accessible, and the rest is copied as `r` says. -/
theorem Copies.step {b : UInt8} {bs : List UInt8} {r : Except Stop (Bool × Kmem)}
    (hacc : Accessible d (va / PGSIZE)) (hram : InRam d (va / PGSIZE))
    (h : Copies d ((va / PGSIZE + 1) * PGSIZE) ((b :: bs).drop (chunk va (b :: bs).length))
      (written s (d.ent (va / PGSIZE)).ppn (va % PGSIZE)
        ((b :: bs).take (chunk va (b :: bs).length))) r) :
    Copies d va (b :: bs) s r := by
  generalize hbuf : b :: bs = buf at h ⊢
  have hpos : 0 < buf.length := by
    rw [← hbuf]
    exact Nat.succ_pos _
  have hlen : (buf.drop (chunk va buf.length)).length = buf.length - chunk va buf.length :=
    List.length_drop
  have hsplit : ∀ v, Touches va buf.length v ↔ v = va / PGSIZE ∨
      Touches ((va / PGSIZE + 1) * PGSIZE) (buf.drop (chunk va buf.length)).length v := by
    intro v
    rw [hlen, touches_split (n := chunk va buf.length) rfl]
    simp [hpos]
  have hlater : ∀ v, Touches ((va / PGSIZE + 1) * PGSIZE)
      (buf.drop (chunk va buf.length)).length v → va / PGSIZE < v := by
    rintro v ⟨i, _, rfl⟩
    unfold PGSIZE
    omega
  -- a page the rest comes to is a page the whole comes to
  have hreached : ∀ u, Reached d ((va / PGSIZE + 1) * PGSIZE)
      (buf.drop (chunk va buf.length)).length u → Reached d va buf.length u := by
    rintro u ⟨htouch, hrest⟩
    refine ⟨(hsplit u).mpr (.inr htouch), ?_⟩
    intro v hv hvu
    rcases (hsplit v).mp hv with heq | hv
    · rw [heq]
      exact ⟨hacc, hram⟩
    · exact hrest v hv hvu
  cases h with
  | refused hreach htable hnot => exact .refused (hreached _ hreach) htable hnot
  | wild hreach hbad => exact .wild (hreached _ hreach) hbad
  | @all s' hall hfree hbytes hother =>
    have hchunk : chunk va buf.length ≤ buf.length := Nat.min_le_right _ _
    have htake : (buf.take (chunk va buf.length)).length = chunk va buf.length := by
      rw [List.length_take]
      exact Nat.min_eq_left hchunk
    -- a byte that the rest does not touch is as this turn left it
    have hturn : ∀ p o, (∀ i, i < buf.length → chunk va buf.length ≤ i →
        phys d (va + i) ≠ (p, o)) → s'.mem p o = (written s (d.ent (va / PGSIZE)).ppn
          (va % PGSIZE) (buf.take (chunk va buf.length))).mem p o := by
      intro p o hnone
      apply hother
      intro j hj
      rw [hlen] at hj
      rw [addr_rest hj]
      exact hnone _ (by omega) (Nat.le_add_right _ _)
    refine .all ?_ hfree ?_ ?_
    · intro u hu
      rcases (hsplit u).mp hu with heq | hu
      · rw [heq]
        exact ⟨hacc, hram⟩
      · exact hall u hu
    · rintro p o ⟨i, hi, hpi⟩
      by_cases hrest : ∃ j, j < (buf.drop (chunk va buf.length)).length ∧
          phys d ((va / PGSIZE + 1) * PGSIZE + j) = (p, o)
      · obtain ⟨j, b, hb, hpj, hmem⟩ := hbytes p o hrest
        have hj : j < (buf.drop (chunk va buf.length)).length := (List.getElem?_eq_some_iff.mp hb).1
        rw [hlen] at hj
        rw [addr_rest hj] at hpj
        rw [List.getElem?_drop] at hb
        exact ⟨_, b, hb, hpj, hmem⟩
      · have hlast : ∀ i, i < buf.length → chunk va buf.length ≤ i → phys d (va + i) ≠ (p, o) := by
          intro i hi hle heq
          have hj : i - chunk va buf.length < buf.length - chunk va buf.length := by omega
          refine hrest ⟨i - chunk va buf.length, by rw [hlen]; exact hj, ?_⟩
          rw [addr_rest hj, show chunk va buf.length + (i - chunk va buf.length) = i by omega]
          exact heq
        have hin : i < chunk va buf.length := by
          by_contra hge
          exact hlast i hi (Nat.le_of_not_lt hge) hpi
        have hpo := (phys_chunk (d := d) hin).symm.trans hpi
        have hp : (d.ent (va / PGSIZE)).ppn = p := congrArg Prod.fst hpo
        have ho : va % PGSIZE + i = o := congrArg Prod.snd hpo
        refine ⟨i, buf[i], List.getElem?_eq_getElem hi, hpi, ?_⟩
        have hget : (buf.take (chunk va buf.length)).getD i 0 = buf[i] := by
          rw [List.getD_eq_getElem?_getD, List.getElem?_take_of_lt hin, List.getElem?_eq_getElem hi]
          rfl
        rw [hturn p o hlast, written_mem, if_pos ⟨hp.symm, by omega, by omega⟩, ← ho,
          Nat.add_sub_cancel_left, hget]
    · intro p o hnone
      rw [hturn p o (fun i hi _ => hnone i hi), written_mem, if_neg]
      rintro ⟨hp, hlo, hhi⟩
      rw [htake] at hhi
      have hin : o - va % PGSIZE < chunk va buf.length := by omega
      apply hnone (o - va % PGSIZE) (by omega)
      rw [phys_chunk hin, hp, show va % PGSIZE + (o - va % PGSIZE) = o by omega]

/-- The loop, for any fuel that lasts for the bytes. -/
theorem copyoutLoop_copies {fuel : Nat} (hfuel : buf.length ≤ fuel)
    (hle : va + buf.length ≤ KERNBASE) : Copies d va buf s (copyoutLoop d fuel va buf s) := by
  -- by induction on the fuel: one turn copies the part of the bytes on the first page
  induction fuel generalizing va buf s with
  | zero =>
    cases buf with
    | nil => exact Copies.nil
    | cons b bs => exact absurd hfuel (Nat.not_succ_le_zero _)
  | succ fuel ih =>
    cases buf with
    | nil => exact Copies.nil
    | cons b bs =>
      rw [copyoutLoop_turn hle]
      by_cases htable : (d.pde (va / PGSIZE / 1024)).isSome = true
      · rw [if_pos htable]
        by_cases hacc : Accessible d (va / PGSIZE) ∧ ¬Null d (va / PGSIZE)
        · rw [if_pos hacc]
          by_cases hram : InRam d (va / PGSIZE)
          · rw [if_pos hram]
            apply Copies.step hacc.1 hram
            have hpos : 0 < (b :: bs).length := Nat.succ_pos _
            apply ih
            · rw [List.length_drop]
              unfold chunk PGSIZE
              omega
            · rw [List.length_drop]
              unfold chunk
              unfold PGSIZE KERNBASE at *
              omega
          · rw [if_neg hram]
            exact .wild reached_first (.inr ⟨hacc.1, hram, hacc.2⟩)
        · rw [if_neg hacc]
          refine .refused reached_first htable ?_
          by_contra hboth
          rw [not_or, not_not] at hboth
          exact hacc hboth
      · rw [if_neg htable]
        exact .wild reached_first (.inl (Bool.eq_false_iff.mpr htable))

/-- Where the copy gets to an end, no page made it go wild. -/
theorem Copies.resolves {r : Bool} (h : Copies d va buf s (.ok (r, s'))) :
    Resolves d va buf.length := by
  cases h with
  | all hall hfree hbytes hother =>
    intro u hu
    exact ⟨table_of_present (hall u hu.1).1.1, fun _ => .inl (hall u hu.1).2⟩
  | @refused _ w hreach htable hnot =>
    intro u hu
    rcases Nat.lt_trichotomy u w with hlt | heq | hgt
    · have hbefore := hreach.2 u hu.1 hlt
      exact ⟨table_of_present hbefore.1.1, fun _ => .inl hbefore.2⟩
    · rw [heq]
      exact ⟨htable, fun hacc => .inr (hnot.resolve_left (not_not_intro hacc))⟩
    · have hw := hu.2 w hreach.1 hgt
      rcases hnot with hnot | hnull
      · exact absurd hw.1 hnot
      · exact absurd hnull hw.2.not_null

/-- A wild copy comes to a page that does not resolve. -/
theorem Copies.not_resolves (h : Copies d va buf s (.error .wild)) :
    ¬Resolves d va buf.length := by
  cases h with
  | wild hreach hbad =>
    intro hres
    obtain ⟨htable, hmem⟩ := hres _ hreach
    rcases hbad with hnone | ⟨hacc, hram, hnull⟩
    · rw [hnone] at htable
      cases htable
    · rcases hmem hacc with h | h
      · exact hram h
      · exact hnull h

theorem copyout_copies (hle : va + buf.length ≤ KERNBASE) :
    Copies d va buf s (copyout d va buf s) := copyoutLoop_copies le_rfl hle

/-- `copyout` copies exactly where the pages it comes to resolve and the bytes for one
address agree. -/
theorem exactCopy_iff (hle : va + buf.length ≤ KERNBASE) : ExactCopy d va buf s ↔
    Resolves d va buf.length ∧ NullRefused d va buf.length ∧ Consistent d va buf := by
  have hcopies := copyout_copies (d := d) (s := s) hle
  unfold ExactCopy
  generalize copyout d va buf s = res at hcopies
  cases hcopies with
  | @all s' hall hfree hbytes hother =>
    constructor
    · rintro ⟨r, s'', heq, -, hcopied⟩
      cases heq
      refine ⟨(Copies.all hall hfree hbytes hother).resolves, ?_, ?_⟩
      · intro u hu _ hnull
        exact absurd hnull (hall u hu.1).2.not_null
      · intro _ i j b c hb hc hphys
        rw [← (hcopied rfl).bytes i b hb, ← (hcopied rfl).bytes j c hc, hphys]
    · rintro ⟨_, _, hcons⟩
      have hacc : ∀ u, Touches va buf.length u → Accessible d u := fun u hu => (hall u hu).1
      refine ⟨true, s', rfl, ⟨fun _ => hacc, fun _ => rfl⟩, fun _ => ⟨hfree, ?_, hother⟩⟩
      intro i b hb
      have hi : i < buf.length := (List.getElem?_eq_some_iff.mp hb).1
      obtain ⟨j, c, hc, hphys, hmem⟩ := hbytes _ _ ⟨i, hi, rfl⟩
      exact hmem.trans (hcons hacc j i c b hc hb hphys)
  | @refused s' w hreach htable hnot =>
    constructor
    · rintro ⟨r, s'', heq, hr, -⟩
      cases heq
      have hsome : ∃ v, Touches va buf.length v ∧ ¬Accessible d v := by
        by_contra hnone
        simp only [not_exists, not_and, not_not] at hnone
        exact absurd (hr.mpr hnone) (by nofun)
      have hend : Copies d va buf s (.ok (false, s')) := .refused hreach htable hnot
      refine ⟨hend.resolves, fun _ _ _ _ => hsome, ?_⟩
      intro hall
      obtain ⟨v, hv, hno⟩ := hsome
      exact absurd (hall v hv) hno
    · rintro ⟨_, hnull, _⟩
      refine ⟨false, _, rfl, ⟨nofun, ?_⟩, nofun⟩
      intro hall
      rcases hnot with hnot | hw
      · exact absurd (hall w hreach.1) hnot
      · obtain ⟨v, hv, hno⟩ := hnull w hreach (hall w hreach.1) hw
        exact absurd (hall v hv) hno
  | wild hreach hbad =>
    constructor
    · rintro ⟨r, s'', heq, -⟩
      cases heq
    · rintro ⟨hres, _⟩
      exact absurd hres (Copies.wild (s := s) hreach hbad).not_resolves

/-- Every page of the range takes the copy. -/
def Copyable (d : PageDir) (va len : Nat) : Prop :=
  ∀ u, Touches va len u → Accessible d u ∧ InRam d u

open scoped Classical in
/-- The outcome of a copy is that of the directory and the range. -/
theorem copyout_settles (hle : va + buf.length ≤ KERNBASE) (hres : Resolves d va buf.length) :
    Settles (copyout d va buf) (decide (Copyable d va buf.length)) := by
  intro s
  have hcopies := copyout_copies (d := d) (s := s) hle
  generalize copyout d va buf s = res at hcopies
  cases hcopies with
  | all hall hfree hbytes hother =>
    rw [decide_eq_true (show Copyable d va buf.length from hall)]
    exact ⟨_, rfl⟩
  | @refused s' w hreach htable hnot =>
    rw [decide_eq_false]
    · exact ⟨_, rfl⟩
    · intro hall
      have hw := hall w hreach.1
      rcases hnot with hnot | hnull
      · exact hnot hw.1
      · exact hw.2.not_null hnull
  | wild hreach hbad => exact absurd hres (Copies.wild (s := s) hreach hbad).not_resolves

theorem copyout_stops (hle : va + buf.length ≤ KERNBASE) (hres : ¬Resolves d va buf.length) :
    Stops (copyout d va buf) .wild := by
  intro s
  have hcopies := copyout_copies (d := d) (s := s) hle
  generalize copyout d va buf s = res at hcopies
  cases hcopies with
  | all hall hfree hbytes hother =>
    exact absurd (Copies.all hall hfree hbytes hother).resolves hres
  | @refused s' w hreach htable hnot =>
    have hend : Copies d va buf s (.ok (false, s')) := .refused hreach htable hnot
    exact absurd hend.resolves hres
  | wild hreach hbad => rfl

/-! ### The arguments of `exec` -/

/-- The stack pointer once an argument is pushed. -/
def pushed (sp : Nat) (arg : List UInt8) : Nat := toUint ((sp : Int) - (arg.length + 1)) / 4 * 4

/-- With `n` arguments pushed, `exec` comes to copy `len` bytes to `va`. -/
inductive Comes (d : PageDir) : List (List UInt8) → Nat → Nat → Nat → Nat → Prop
  /-- The frame of `main`, at the end. -/
  | frame {sp n : Nat} :
      Comes d [] sp n (toUint ((sp : Int) - (3 + (n : Int) + 1) * 4)) ((3 + n + 1) * 4)
  /-- The next argument. -/
  | arg {sp n : Nat} {arg : List UInt8} {argv : List (List UInt8)} (hmax : n < MAXARG) :
      Comes d (arg :: argv) sp n (pushed sp arg) (arg.length + 1)
  /-- A copy after that of the next argument. -/
  | later {sp n va len : Nat} {arg : List UInt8} {argv : List (List UInt8)} (hmax : n < MAXARG)
      (hcopy : Copyable d (pushed sp arg) (arg.length + 1))
      (h : Comes d argv (pushed sp arg) (n + 1) va len) : Comes d (arg :: argv) sp n va len

/-- The frame of `main` for these arguments. -/
def frame (sp : Nat) (args : List Nat) : List UInt8 :=
  (([0xffffffff, args.length, toUint ((sp : Int) - (args.length + 1) * 4)] ++ args ++ [0]).flatMap
    wordBytes)

theorem frame_length (sp : Nat) (args : List Nat) :
    (frame sp args).length = (3 + args.length + 1) * 4 := by
  have hwords : ∀ ws : List Nat, (ws.flatMap wordBytes).length = ws.length * 4 := by
    intro ws
    induction ws with
    | nil => rfl
    | cons w ws ih =>
      rw [List.flatMap_cons, List.length_append, ih, List.length_cons,
        show (wordBytes w).length = 4 from rfl]
      omega
  rw [frame, hwords]
  simp only [List.length_append, List.length_cons, List.length_nil]

/-- The rest of the stack, with the arguments of `ustack` pushed. -/
def pushRest (d : PageDir) (argv : List (List UInt8)) (sp : Nat) (ustack : List Nat) :
    VmM (Option Nat) := do
  match ← pushArgs d argv sp ustack with
  | none => pure none
  | some (sp, args) => do
    let sp' := toUint ((sp : Int) - (3 + args.length + 1) * 4)
    if ← copyout d sp' (frame sp args) then
      pure (some sp')
    else
      pure none

theorem pushStack_eq_pushRest (argv : List (List UInt8)) :
    pushStack d argv = pushRest d argv (KERNBASE - 1) [] := rfl

variable {argv : List (List UInt8)} {arg : List UInt8} {sp : Nat} {ustack : List Nat}

theorem pushRest_nil : pushRest d [] sp ustack = (do
    if ← copyout d (toUint ((sp : Int) - (3 + (ustack.length : Int) + 1) * 4))
        (frame sp ustack) then
      pure (some (toUint ((sp : Int) - (3 + (ustack.length : Int) + 1) * 4)))
    else pure none) := rfl

theorem pushRest_full (hmax : MAXARG ≤ ustack.length) :
    pushRest d (arg :: argv) sp ustack = pure none := by
  unfold pushRest
  rw [pushArgs, if_pos hmax]
  rfl

theorem pushRest_cons (hmax : ustack.length < MAXARG) :
    pushRest d (arg :: argv) sp ustack = (do
      if ← copyout d (pushed sp arg) (arg ++ [0]) then
        pushRest d argv (pushed sp arg) (ustack ++ [pushed sp arg])
      else pure none) := by
  unfold pushRest
  rw [pushArgs, if_neg (Nat.not_le.mpr hmax)]
  dsimp only
  rw [bind_bind]
  congr 1
  funext b
  cases b with
  | true => rfl
  | false => rfl

/-- The outcome is that of the directory and the strings: where all copies resolve, `exec`
gets to the end of the stack, and nowhere else. -/
theorem pushRest_outcome
    (hlow : ∀ va len, Comes d argv sp ustack.length va len → va + len ≤ KERNBASE) :
    ((∀ va len, Comes d argv sp ustack.length va len → Resolves d va len) →
        ∃ r, Settles (pushRest d argv sp ustack) r) ∧
      (¬(∀ va len, Comes d argv sp ustack.length va len → Resolves d va len) →
        Stops (pushRest d argv sp ustack) .wild) := by
  classical
  induction argv generalizing sp ustack with
  | nil =>
    have hlow := hlow _ _ .frame
    rw [← frame_length sp ustack] at hlow
    rw [pushRest_nil]
    constructor
    · intro hres
      have hres := hres _ _ .frame
      rw [← frame_length sp ustack] at hres
      have hcopy := copyout_settles hlow hres
      cases hb : decide (Copyable d _ (frame sp ustack).length) with
      | true =>
        rw [hb] at hcopy
        exact ⟨_, hcopy.bind (.pure _)⟩
      | false =>
        rw [hb] at hcopy
        exact ⟨_, hcopy.bind (.pure _)⟩
    · intro hnot
      refine (copyout_stops hlow fun hres => hnot ?_).bind
      intro va len hcomes
      cases hcomes
      rw [← frame_length sp ustack]
      exact hres
  | cons arg argv ih =>
    rcases Nat.lt_or_ge ustack.length MAXARG with hmax | hmax
    · have hlen : (arg ++ [0]).length = arg.length + 1 := List.length_append
      have hnext : (ustack ++ [pushed sp arg]).length = ustack.length + 1 := List.length_append
      have harg := hlow _ _ (.arg hmax)
      rw [← hlen] at harg
      rw [pushRest_cons hmax]
      by_cases hhere : Resolves d (pushed sp arg) (arg.length + 1)
      · rw [← hlen] at hhere
        have hcopy := copyout_settles harg hhere
        by_cases hall : Copyable d (pushed sp arg) (arg ++ [0]).length
        · rw [decide_eq_true hall] at hcopy
          rw [hlen] at hall hhere
          -- the copies still to come are those of the other arguments
          have hrest : ∀ va len, Comes d argv (pushed sp arg)
              (ustack ++ [pushed sp arg]).length va len →
              Comes d (arg :: argv) sp ustack.length va len := by
            intro va len h
            rw [hnext] at h
            exact .later hmax hall h
          obtain ⟨hok, hwild⟩ := ih fun va len h => hlow va len (hrest va len h)
          constructor
          · intro hres
            obtain ⟨r, hr⟩ := hok fun va len h => hres va len (hrest va len h)
            exact ⟨r, hcopy.bind hr⟩
          · intro hnot
            refine hcopy.bind_stops (hwild fun hres => hnot ?_)
            intro va len h
            cases h with
            | arg _ => exact hhere
            | later _ _ h =>
              rw [← hnext] at h
              exact hres va len h
        · rw [decide_eq_false hall] at hcopy
          rw [hlen] at hall hhere
          refine ⟨fun _ => ⟨none, hcopy.bind (.pure _)⟩, fun hnot => absurd ?_ hnot⟩
          intro va len h
          cases h with
          | arg _ => exact hhere
          | later _ hcopied _ => exact absurd hcopied hall
      · refine ⟨fun hres => absurd (hres _ _ (.arg hmax)) hhere, fun _ => ?_⟩
        rw [← hlen] at hhere
        exact (copyout_stops harg hhere).bind
    · rw [pushRest_full hmax]
      refine ⟨fun _ => ⟨none, .pure _⟩, fun hnot => absurd ?_ hnot⟩
      intro va len h
      cases h with
      | arg hlt => exact absurd hmax (Nat.not_le.mpr hlt)
      | later hlt _ _ => exact absurd hmax (Nat.not_le.mpr hlt)

/-- `copyout` is exact where the pages it comes to resolve and the bytes for one address
agree, and nowhere else.  Where every copy of `exec` resolves, what the arguments come to is
decided by the directory and the strings. -/
theorem copyout_exact (d : PageDir) :
    (∀ va buf s, va + buf.length ≤ KERNBASE → (ExactCopy d va buf s ↔
      Resolves d va buf.length ∧ NullRefused d va buf.length ∧ Consistent d va buf)) ∧
    ∀ argv, (∀ va len, Comes d argv (KERNBASE - 1) 0 va len → va + len ≤ KERNBASE) →
      ((∃ r, Settles (pushStack d argv) r) ↔
        ∀ va len, Comes d argv (KERNBASE - 1) 0 va len → Resolves d va len) := by
  refine ⟨fun va buf s hle => exactCopy_iff hle, ?_⟩
  intro argv hlow
  obtain ⟨hok, hwild⟩ := pushRest_outcome (show ∀ va len, Comes d argv (KERNBASE - 1)
    ([] : List Nat).length va len → va + len ≤ KERNBASE from hlow)
  rw [pushStack_eq_pushRest]
  constructor
  · rintro ⟨r, hr⟩
    by_contra hnot
    have : Nonempty Kmem := ⟨⟨[], fun _ _ => 0⟩⟩
    exact (hwild hnot).not_settles hr
  · exact hok

/-- A directory with the one page of the user stack. -/
def stackDir : PageDir :=
  ((PageDir.empty 1).addTable 0x7ffff000 2).setPte 0x7ffff000 ⟨3, PTE_W ||| PTE_U ||| PTE_P⟩

theorem stackDir_resolves {len : Nat} (hva : 0x7ffff000 ≤ va) (hle : va + len ≤ KERNBASE) :
    Resolves stackDir va len ∧ ∀ u, Touches va len u → ¬Null stackDir u := by
  have hpage : ∀ u, Touches va len u → u = 0x7ffff := by
    rintro u ⟨i, hi, rfl⟩
    unfold PGSIZE
    unfold KERNBASE at hle
    omega
  constructor
  · intro u hu
    rw [hpage u hu.1]
    exact ⟨rfl, fun _ => .inl (show InRam stackDir 0x7ffff by decide)⟩
  · intro u hu
    rw [hpage u hu]
    decide

/-- A short string is copied to the stack, and an empty argument vector is pushed. -/
theorem copyout_exact_stack : ExactCopy stackDir 0x7ffffff0 [104, 105] ⟨[], fun _ _ => 0⟩ ∧
    ∃ r, Settles (pushStack stackDir []) r := by
  have hframe : ∀ va len, Comes stackDir [] (KERNBASE - 1) 0 va len →
      va = 0x7fffffef ∧ len = 16 := by
    intro va len h
    cases h
    exact ⟨rfl, rfl⟩
  constructor
  · obtain ⟨hres, hnull⟩ := stackDir_resolves (show 0x7ffff000 ≤ 0x7ffffff0 by decide)
      (show 0x7ffffff0 + 2 ≤ KERNBASE by decide)
    refine ((copyout_exact stackDir).1 _ _ _ (show 0x7ffffff0 + 2 ≤ KERNBASE by decide)).mpr
      ⟨hres, fun u hu _ h => absurd h (hnull u hu.1), ?_⟩
    intro _ i j b c hb hc hphys
    have hi : i < 2 := (List.getElem?_eq_some_iff.mp hb).1
    have hj : j < 2 := (List.getElem?_eq_some_iff.mp hc).1
    have hoff : (0x7ffffff0 + i) % PGSIZE = (0x7ffffff0 + j) % PGSIZE := congrArg Prod.snd hphys
    have hij : i = j := by
      unfold PGSIZE at hoff
      omega
    rw [hij] at hb
    exact Option.some.inj (hb.symm.trans hc)
  · apply ((copyout_exact stackDir).2 [] ?_).mpr
    · intro va len h
      obtain ⟨rfl, rfl⟩ := hframe va len h
      exact (stackDir_resolves (by decide) (by decide)).1
    · intro va len h
      obtain ⟨rfl, rfl⟩ := hframe va len h
      decide

/-- The stack directory has no table below that of the stack. -/
theorem stackDir_missing (len : Nat) : ¬Resolves stackDir 0x7fbffffc (len + 1) := by
  intro hres
  have htable := (hres _ reached_first).1
  cases htable

/-- A string longer than what the page table of the stack covers. -/
theorem pushStack_stops (harg : arg.length = 0x400000) :
    Stops (pushStack stackDir [arg]) .wild := by
  have hva : pushed (KERNBASE - 1) arg = 0x7fbffffc := by
    unfold pushed
    rw [harg]
    decide
  have hlen : (arg ++ [0]).length = 0x400000 + 1 := by rw [List.length_append, harg]; rfl
  rw [pushStack_eq_pushRest, pushRest_cons (show ([] : List Nat).length < MAXARG by decide), hva]
  apply Stops.bind
  apply copyout_stops
  · rw [hlen]
    decide
  · rw [hlen]
    exact stackDir_missing 0x400000

/-- An argument longer than what the stack's page table covers: the copy starts below that
table, and what `exec` does is decided by what address 0 of the caller holds. -/
theorem copyout_missing_table :
    ¬ExactCopy stackDir 0x7fbffffc [104] ⟨[], fun _ _ => 0⟩ ∧
      Stops (pushStack stackDir [List.replicate 0x400000 104]) .wild := by
  have hle : 0x7fbffffc + [(104 : UInt8)].length ≤ KERNBASE := by decide
  constructor
  · intro hexact
    exact stackDir_missing 0 ((exactCopy_iff hle).mp hexact).1
  · exact pushStack_stops List.length_replicate

end Vm
end Xv6
