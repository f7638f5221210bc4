import Xv6.Lib.Run
import Xv6.Vm.Shrink
import Xv6.Proc.Boot

/-!
# The size of a process (`sysproc.c`)

`sys_sbrk` adds its argument to `sz` without a bound, and takes the result 0 of `deallocuvm`
for an error even where it is the new size.  `contract_iff` says for which arguments a call
does what it should; in runs where every call has such an argument, no size ever passes
`KERNBASE`.
-/

namespace Xv6
namespace Proc

open Lib Lib.Exec Vm Function

/-- What virtual page `u` of a process is mapped to. -/
def Process.mapping (p : Process) (u : Nat) : Option Pte := p.pgdir.bind fun d => d.mapping u

/-- Process `i` with a new directory and a new size. -/
def resize (k : Kernel) (i : Nat) (s : Kmem) (d : PageDir) (sz : Nat) : Kernel :=
  { k with kmem := s, proc := update k.proc i { k.proc i with pgdir := some d, sz := sz } }

/-- The argument is a signed word. -/
def Word (n : Int) : Prop := -2 ^ 31 ≤ n ∧ n < 2 ^ 31

instance (n : Int) : Decidable (Word n) := inferInstanceAs (Decidable (_ ∧ _))

variable {M : Machine} {k k' : Kernel} {i : Nat} {n : Int} {d d' : PageDir} {s s' : Kmem}

@[simp] theorem resize_sz (sz : Nat) : ((resize k i s d sz).proc i).sz = sz := by
  simp [resize]

@[simp] theorem resize_mapping (sz u : Nat) :
    ((resize k i s d sz).proc i).mapping u = d.mapping u := by
  simp [resize, Process.mapping]

/-! ### What a call does -/

theorem sysSbrk_grow (hdir : (k.proc i).pgdir = some d) (hn : 0 ≤ n) : sysSbrk M i n k =
    .ok (((k.proc i).sz : Int), resize k i k.kmem d (toUint ((k.proc i).sz + n))) := by
  unfold sysSbrk
  rw [getProc_bind, if_neg (Int.not_lt.mpr hn)]
  unfold resize
  rw [← hdir]
  rfl

theorem pgdirOf_some {p : Process} (hdir : p.pgdir = some d) : pgdirOf p k = .ok (d, k) := by
  unfold pgdirOf
  rw [hdir]
  rfl

/-- A call that shrinks, by the result of `deallocuvm`. -/
theorem sysSbrk_shrink {r : Nat} (hdir : (k.proc i).pgdir = some d) (hn : n < 0)
    (hrun : deallocuvm M d (k.proc i).sz (toUint ((k.proc i).sz + n)) k.kmem = .ok ((d', r), s')) :
    sysSbrk M i n k = if r = 0 then .ok (-1, resize k i s' d' (k.proc i).sz)
      else .ok (((k.proc i).sz : Int), resize k i s' d' (toUint ((k.proc i).sz + n))) := by
  unfold sysSbrk
  rw [getProc_bind]
  dsimp only
  rw [if_pos hn, bind_of_ok (pgdirOf_some hdir), bind_of_ok (liftVm_of_ok hrun)]
  by_cases hr : r = 0
  · rw [if_pos hr]
    simp only [hr, if_true]
    rfl
  · rw [if_neg hr]
    simp only [hr, if_false]
    unfold resize
    refine congrArg Except.ok (congrArg (Prod.mk _) ?_)
    simp

theorem sysSbrk_error {e : Stop} (hdir : (k.proc i).pgdir = some d) (hn : n < 0)
    (hrun : deallocuvm M d (k.proc i).sz (toUint ((k.proc i).sz + n)) k.kmem = .error e) :
    sysSbrk M i n k = .error e := by
  unfold sysSbrk
  rw [getProc_bind]
  dsimp only
  rw [if_pos hn, bind_of_ok (pgdirOf_some hdir), bind_of_error]
  unfold liftVm
  rw [hrun]

/-- A size that stays positive or zero. -/
theorem toUint_shrinks {sz : Nat} (hsz : sz ≤ KERNBASE) (hn : n < 0) (hnonneg : 0 ≤ sz + n) :
    toUint (sz + n) = (sz + n).toNat := by
  unfold toUint
  unfold KERNBASE at hsz
  omega

/-- A size that would be negative. -/
theorem toUint_wraps {sz : Nat} (hsz : sz ≤ KERNBASE) (hw : Word n) (hneg : sz + n < 0) :
    (toUint (sz + n) : Int) = sz + n + 2 ^ 32 ∧ sz ≤ toUint (sz + n) := by
  unfold toUint
  unfold Word KERNBASE at *
  omega

/-- Then `deallocuvm` has nothing to do. -/
theorem deallocuvm_wraps {sz : Nat} (hsz : sz ≤ KERNBASE) (hw : Word n) (hneg : sz + n < 0) :
    deallocuvm M d sz (toUint (sz + n)) s = .ok ((d, sz), s) := by
  unfold deallocuvm
  rw [if_pos (toUint_wraps hsz hw hneg).2]
  rfl

/-! ### The contract -/

/-- What `sys_sbrk` should do: fail and leave the process as it was, or return the old size
and change it by `n`, within the user part. -/
def Contract (M : Machine) (k : Kernel) (i : Nat) (n : Int) : Prop :=
  ∃ r k', sysSbrk M i n k = .ok (r, k') ∧ ((r = -1 ∧ (k'.proc i).sz = (k.proc i).sz ∧
        ∀ u, u < userPages → (k'.proc i).mapping u = (k.proc i).mapping u) ∨
      (r = (k.proc i).sz ∧ ((k'.proc i).sz : Int) = (k.proc i).sz + n ∧
        (k'.proc i).sz ≤ KERNBASE)) ∧
    ∀ u, userPages ≤ u → u < 2 ^ 20 → (k'.proc i).mapping u = (k.proc i).mapping u

/-- The arguments for which it does. -/
inductive SbrkGood (M : Machine) (p : Process) (d : PageDir) (n : Int) : Prop
  /-- The new size is in the user part. -/
  | grow (hn : 0 ≤ n) (hle : p.sz + n ≤ KERNBASE)
  /-- There is nothing to give back. -/
  | empty (hn : n < 0) (hsz : p.sz = 0)
  /-- Something remains, and the frames to go can be freed. -/
  | shrink (hn : n < 0) (hpos : 0 < p.sz + n)
      (hfree : ∀ q ∈ d.frames ((p.sz + n).toNat / PGSIZE) (span p.sz (p.sz + n).toNat), M.InRange q)
  /-- Nothing remains, but nothing was mapped. -/
  | vacant (hn : n < 0) (hpos : 0 < p.sz) (hzero : p.sz + n = 0)
      (habs : ∀ u, u * PGSIZE < p.sz → (d.ent u).present = false)

section Contract

variable (hdir : (k.proc i).pgdir = some d) (hsz : (k.proc i).sz ≤ KERNBASE) (hw : Word n)

theorem process_mapping {p : Process} (hdir : p.pgdir = some d) (u : Nat) :
    p.mapping u = d.mapping u := by
  rw [Process.mapping, hdir]
  rfl

include hdir hsz hw

theorem contract_grow (hn : 0 ≤ n) : Contract M k i n ↔ (k.proc i).sz + n ≤ KERNBASE := by
  have hnew : (toUint ((k.proc i).sz + n) : Int) = (k.proc i).sz + n := by
    unfold toUint
    unfold Word KERNBASE at *
    omega
  unfold Contract
  rw [sysSbrk_grow hdir hn]
  constructor
  · rintro ⟨r, k', heq, hcase, -⟩
    cases heq
    rw [resize_sz, hnew] at hcase
    rcases hcase with ⟨hr, -⟩ | ⟨-, -, hle⟩
    · omega
    · omega
  · intro hle
    refine ⟨_, _, rfl, .inr ⟨rfl, ?_, ?_⟩, ?_⟩
    · rw [resize_sz, hnew]
    · rw [resize_sz]
      omega
    · intro u _ _
      rw [resize_mapping, process_mapping hdir]

/-- A size that would become negative wraps around. -/
theorem contract_wraps (hn : n < 0) (hneg : (k.proc i).sz + n < 0) :
    Contract M k i n ↔ (k.proc i).sz = 0 := by
  obtain ⟨hnew, -⟩ := toUint_wraps hsz hw hneg
  unfold Contract
  rw [sysSbrk_shrink hdir hn (deallocuvm_wraps hsz hw hneg)]
  by_cases h0 : (k.proc i).sz = 0
  · rw [if_pos h0]
    refine iff_of_true ⟨_, _, rfl, .inl ⟨rfl, ?_, ?_⟩, ?_⟩ h0
    · rw [resize_sz]
    · intro u _
      rw [resize_mapping, process_mapping hdir]
    · intro u _ _
      rw [resize_mapping, process_mapping hdir]
  · rw [if_neg h0]
    refine iff_of_false ?_ h0
    rintro ⟨r, k', heq, hcase, -⟩
    cases heq
    rw [resize_sz] at hcase
    rcases hcase with ⟨hr, -⟩ | ⟨-, hsum, -⟩
    · omega
    · omega

omit hw in
/-- A size that stays positive. -/
theorem contract_shrinks (hn : n < 0) (hpos : 0 < (k.proc i).sz + n) : Contract M k i n ↔
    ∀ q ∈ d.frames (((k.proc i).sz + n).toNat / PGSIZE)
      (span (k.proc i).sz ((k.proc i).sz + n).toNat), M.InRange q := by
  have hnew := toUint_shrinks hsz hn (Int.le_of_lt hpos)
  have hlt : ((k.proc i).sz + n).toNat < (k.proc i).sz := by omega
  unfold Contract
  by_cases hframes : ∀ q ∈ d.frames (((k.proc i).sz + n).toNat / PGSIZE)
      (span (k.proc i).sz ((k.proc i).sz + n).toNat), M.InRange q
  · obtain ⟨d', s', hrun, hshrunk⟩ := deallocuvm_shrinks (s := k.kmem) hlt hsz hframes
    rw [← hnew] at hrun
    rw [sysSbrk_shrink hdir hn hrun, if_neg (by omega)]
    refine iff_of_true ⟨_, _, rfl, .inr ⟨rfl, ?_, ?_⟩, ?_⟩ hframes
    · rw [resize_sz]
      omega
    · rw [resize_sz]
      omega
    · intro u hlo hhi
      rw [resize_mapping, process_mapping hdir]
      exact hshrunk.mapping_high hsz hlt hlo hhi
  · rw [sysSbrk_error hdir hn (by rw [hnew]; exact deallocuvm_panics hlt hsz hframes)]
    refine iff_of_false ?_ hframes
    rintro ⟨r, k', heq, -⟩
    cases heq

omit hw in
/-- A size of 0 is taken for an error. -/
theorem contract_empties (hn : n < 0) (hzero : (k.proc i).sz + n = 0) : Contract M k i n ↔
    ∀ u, u * PGSIZE < (k.proc i).sz → (d.ent u).present = false := by
  have hnew : toUint ((k.proc i).sz + n) = 0 := by
    rw [hzero]
    rfl
  have hlt : 0 < (k.proc i).sz := by omega
  have hspan : span (k.proc i).sz 0 = pagesTo (k.proc i).sz := Nat.sub_zero _
  have htop := pagesTo_le hsz
  unfold Contract
  by_cases hframes : ∀ q ∈ d.frames (0 / PGSIZE) (span (k.proc i).sz 0), M.InRange q
  · obtain ⟨d', s', hrun, hshrunk⟩ := deallocuvm_shrinks (s := k.kmem) hlt hsz hframes
    rw [← hnew] at hrun
    rw [sysSbrk_shrink hdir hn hrun, if_pos hnew]
    constructor
    · rintro ⟨r, k', heq, hcase, -⟩ u hu
      cases heq
      rcases hcase with ⟨-, -, hsame⟩ | ⟨hr, -⟩
      · have hin := lt_pagesTo.mpr hu
        have huser : u < userPages := by
          unfold userPages
          omega
        have hmap := hsame u huser
        rw [resize_mapping, process_mapping hdir] at hmap
        by_contra hp
        rw [Bool.not_eq_false] at hp
        have hent := hshrunk.ent u (by omega)
        rw [hspan, Nat.zero_div, Nat.zero_add, if_pos ⟨Nat.zero_le _, hin, hp⟩] at hent
        rw [mapping_of_present hp, mapping_of_absent (by rw [hent]; rfl)] at hmap
        cases hmap
      · omega
    · intro habs
      have hmap : ∀ u, u < 2 ^ 20 → d'.mapping u = d.mapping u := by
        intro u hu
        apply mapping_congr
        rw [hshrunk.ent u hu, if_neg]
        rintro ⟨-, hin, hp⟩
        rw [hspan, Nat.zero_div, Nat.zero_add, lt_pagesTo] at hin
        rw [habs u hin] at hp
        cases hp
      refine ⟨_, _, rfl, .inl ⟨rfl, ?_, ?_⟩, ?_⟩
      · rw [resize_sz]
      · intro u hu
        rw [resize_mapping, process_mapping hdir]
        exact hmap u (Nat.lt_trans hu (by decide))
      · intro u _ hu
        rw [resize_mapping, process_mapping hdir]
        exact hmap u hu
  · rw [sysSbrk_error hdir hn (by rw [hnew]; exact deallocuvm_panics hlt hsz hframes)]
    constructor
    · rintro ⟨r, k', heq, -⟩
      cases heq
    · intro habs
      apply absurd _ hframes
      intro q hq
      obtain ⟨u, -, hin, hp, -⟩ := mem_frames.mp hq
      rw [hspan, Nat.zero_div, Nat.zero_add, lt_pagesTo] at hin
      rw [habs u hin] at hp
      cases hp

/-- For which arguments a call does what it should. -/
theorem contract_iff : Contract M k i n ↔ SbrkGood M (k.proc i) d n := by
  constructor
  · intro h
    by_cases hn : 0 ≤ n
    · exact .grow hn ((contract_grow hdir hsz hw hn).mp h)
    · rw [Int.not_le] at hn
      rcases lt_trichotomy ((k.proc i).sz + n) 0 with hneg | hzero | hpos
      · exact .empty hn ((contract_wraps hdir hsz hw hn hneg).mp h)
      · exact .vacant hn (by omega) hzero ((contract_empties hdir hsz hn hzero).mp h)
      · exact .shrink hn hpos ((contract_shrinks hdir hsz hn hpos).mp h)
  · intro h
    cases h with
    | grow hn hle => exact (contract_grow hdir hsz hw hn).mpr hle
    | empty hn h0 => exact (contract_wraps hdir hsz hw hn (by omega)).mpr h0
    | shrink hn hpos hfree => exact (contract_shrinks hdir hsz hn hpos).mpr hfree
    | vacant hn _ hzero habs => exact (contract_empties hdir hsz hn hzero).mpr habs

end Contract

/-! ### Runs -/

/-- No process is larger than the user part. -/
def SizesBelow (k : Kernel) : Prop := ∀ i, (k.proc i).sz ≤ KERNBASE

/-- A step whose `sbrk`, if it is one, has a good argument. -/
def SbrkSteps (M : Machine) (k : Kernel) (l : Label) (k' : Kernel) : Prop :=
  step M l k = .ok ((), k') ∧ ∀ c n context, l = .sbrk c n context → Word n ∧
    ∀ i d, (k.cpu c).proc = some i → (k.proc i).killed = false → (k.proc i).pgdir = some d →
      SbrkGood M (k.proc i) d n

theorem Calm.sizesBelow (h : Calm k k') (hb : SizesBelow k) : SizesBelow k' := by
  intro i
  rw [(h.same i).sz]
  exact hb i

/-- One process is replaced by one that is not larger than the user part. -/
theorem SizesBelow.update {q : Process} (hb : SizesBelow k)
    (hproc : k'.proc = update k.proc i q) (hq : q.sz ≤ KERNBASE) : SizesBelow k' := by
  intro j
  rw [hproc]
  by_cases hj : j = i
  · rw [hj, update_self]
    exact hq
  · rw [update_of_ne hj]
    exact hb j

/-- No action but that of `sbrk` makes a process too large. -/
theorem Acts.sizesBelow {l : Label} (h : Acts M k l k') (hb : SizesBelow k)
    (hl : ∀ c n context, l ≠ .sbrk c n context) : SizesBelow k' := by
  cases h with
  | still h => exact h.toCalm.sizesBelow hb
  | store hc => exact hb
  | leaves hc h => exact h.toCalm.sizesBelow hb
  | enters hc hi hrun => exact (calm_entered hrun).sizesBelow hb
  | resized hc hdir h => exact absurd rfl (hl _ _ _)
  | served hc hdir hlow h => exact hb.update rfl (hb _)
  | unserved hc hdir h => exact hb.update rfl (hb _)
  | execed hc hdir hcons hkernel hsz =>
    refine hb.update rfl ?_
    show Image.sz _ ≤ KERNBASE
    rw [hsz]
    decide
  | reaped hc hj hzombie hparent hstack hdir hcons => exact hb.update rfl (hb _)
  | forked hc hdir h =>
    obtain ⟨page, s, child, ft, -, -, hk'⟩ := h.child
    refine hb.update (congrArg Kernel.proc hk') (hb _)
  | forkFailed hc hdir h =>
    rcases h with ⟨-, rfl⟩ | ⟨n, q, s, hn, hq, -, hsz, -, -, hmem, rfl⟩
    · exact hb
    · refine hb.update rfl ?_
      rw [hsz]
      exact hb n

theorem Does.sizesBelow {l : Label} (h : Does M k l k') (hb : SizesBelow k)
    (hl : ∀ c n context, l ≠ .sbrk c n context) : SizesBelow k' := by
  obtain ⟨k1, k2, hacts, hstill, rfl | ⟨c, i, -, hexit⟩⟩ := h
  · exact hstill.toCalm.sizesBelow (hacts.sizesBelow hb hl)
  · exact hexit.toCalm.sizesBelow (hstill.toCalm.sizesBelow (hacts.sizesBelow hb hl))

/-- Sizes below `KERNBASE` keep `sbrk` away from the kernel's part of the directory. -/
theorem sbrkSafe_of_le {p : Process} (hsz : p.sz ≤ KERNBASE) (n : Int) : SbrkSafe M p n := by
  intro _ hlt hdirect
  have hlo := hdirect.1
  unfold PGSIZE at hlo
  unfold KERNBASE at hsz
  omega

/-- A call of `sbrk`: a killed process exits, and otherwise the call is made and what follows
concerns no address space. -/
theorem sbrk_cases {c : Nat} {context : Context} {u : Unit} (hk : Sound M k) (hp : Placed k)
    (hc : (k.cpu c).proc = some i) (hsafe : SbrkSafe M (k.proc i) n)
    (h : syscall M c context (fun i => sysSbrk M i n) k = .ok (u, k')) :
    ((k.proc i).killed = true ∧ Calm k k') ∨
      ((k.proc i).killed = false ∧ ∃ r k1, sysSbrk M i n k = .ok (r, k1) ∧ Calm k1 k') := by
  unfold syscall at h
  obtain ⟨i', k0, hmy, h1⟩ := bind_eq_ok.mp h
  obtain ⟨hc', rfl⟩ := myproc_ok hmy
  rw [hc] at hc'
  cases hc'
  rw [getProc_bind] at h1
  split_ifs at h1 with hkilled
  · exact .inl ⟨hkilled, (exit_ok hk.pipes (hp.used hc).2 h1).toCalm⟩
  · obtain ⟨r, k1, hbody, h2⟩ := bind_eq_ok.mp h1
    obtain ⟨_, k2, heax, h3⟩ := bind_eq_ok.mp h2
    refine .inr ⟨Bool.eq_false_iff.mpr hkilled, r, k1, hbody, ?_⟩
    obtain ⟨page, d, hstack, hdir, hkernel⟩ := hk.current hp hc
    obtain ⟨d', hres⟩ := sysSbrk_ok hdir hkernel (hk.sz i) hsafe hbody
    have hacts : Acts M k (.sbrk c n context) k1 := .resized hc hdir hres
    have hstill := Still.modProc_fields heax fun _ => ⟨rfl, rfl, rfl, rfl, rfl⟩
    rw [getProc_bind] at h3
    split_ifs at h3 with hkilled2
    · have hk2 := hstill.toCalm.sound (hacts.sound hk hp)
      have hp2 := hstill.placed (hacts.placed hp)
      have hc2 : (k2.cpu c).proc = some i := by
        rw [hstill.cpu, hres.rest.2.2.2]
        exact hc
      exact hstill.toCalm.trans (exit_ok hk2.pipes (hp2.used hc2).2 h3).toCalm
    · cases h3
      exact hstill.toCalm

/-- A call of `sbrk` with a good argument. -/
theorem sbrk_sizesBelow {c : Nat} {context : Context} {u : Unit} (hk : Sound M k) (hp : Placed k)
    (hb : SizesBelow k) (hw : Word n)
    (hgood : ∀ i d, (k.cpu c).proc = some i → (k.proc i).killed = false →
      (k.proc i).pgdir = some d → SbrkGood M (k.proc i) d n)
    (h : syscall M c context (fun i => sysSbrk M i n) k = .ok (u, k')) : SizesBelow k' := by
  obtain ⟨i, k0, hmy, -⟩ := bind_eq_ok.mp h
  obtain ⟨hc, rfl⟩ := myproc_ok hmy
  obtain ⟨page, d, hstack, hdir, hkernel⟩ := hk.current hp hc
  have hsafe : SbrkSafe M (k.proc i) n := sbrkSafe_of_le (hb i) n
  rcases sbrk_cases hk hp hc hsafe h with ⟨-, hcalm⟩ | ⟨hkilled, r, k1, hbody, hcalm⟩
  · exact hcalm.sizesBelow hb
  · obtain ⟨d', hres⟩ := sysSbrk_ok hdir hkernel (hk.sz i) hsafe hbody
    obtain ⟨sz, -, hproc⟩ := hres.proc
    -- by its contract the call leaves a size in the user part
    have hle : (k1.proc i).sz ≤ KERNBASE := by
      obtain ⟨r', k', heq, hcase, -⟩ := (contract_iff hdir (hb i) hw).mpr (hgood i d hc hkilled hdir)
      rw [hbody] at heq
      cases heq
      rcases hcase with ⟨-, hsame, -⟩ | ⟨-, -, hle⟩
      · rw [hsame]
        exact hb i
      · exact hle
    refine hcalm.sizesBelow (hb.update hproc ?_)
    rw [hproc, update_self] at hle
    exact hle

/-- The invariant of a run. -/
theorem sbrkSteps_step {l : Label} (hk : Sound M k) (hp : Placed k) (hb : SizesBelow k)
    (h : SbrkSteps M k l k') : Sound M k' ∧ Placed k' ∧ SizesBelow k' := by
  obtain ⟨hstep, hgood⟩ := h
  have hdoes := step_does hk hp (fun _ n _ _ i _ => sbrkSafe_of_le (hb i) n) hstep
  refine ⟨hdoes.sound hk hp, hdoes.placed hp, ?_⟩
  by_cases hl : ∀ c n context, l ≠ .sbrk c n context
  · exact hdoes.sizesBelow hb hl
  · simp only [not_forall, not_not] at hl
    obtain ⟨c, n, context, rfl⟩ := hl
    obtain ⟨hw, hgood⟩ := hgood c n context rfl
    exact sbrk_sizesBelow hk hp hb hw hgood hstep

/-- Booting makes one process, of one page. -/
theorem boot_sizesBelow {cfg : Config} (h : boot M cfg = .ok k) : SizesBelow k := by
  obtain ⟨kpgdir, s, n, page, d, lost, hstarted, -⟩ := boot_ok h
  clear h
  obtain ⟨s', hk⟩ := hstarted.kernel
  have hblank : SizesBelow (blank kpgdir s) := fun i => Nat.zero_le _
  refine hblank.update (congrArg Kernel.proc hk) ?_
  show PGSIZE ≤ KERNBASE
  decide

/-- A call of `sys_sbrk` meets its contract for the good arguments and for no others; and
as long as all calls have good arguments, no size of a process passes `KERNBASE`. -/
theorem sbrk_contract (M : Machine) :
    (∀ k i d n, (k.proc i).pgdir = some d → (k.proc i).sz ≤ KERNBASE → Word n →
      (Contract M k i n ↔ SbrkGood M (k.proc i) d n)) ∧
    ∀ cfg k0 ls k, boot M cfg = .ok k0 → Run (SbrkSteps M) k0 ls k →
      ∀ i, (k.proc i).sz ≤ KERNBASE := by
  refine ⟨fun k i d n hdir hsz hw => contract_iff hdir hsz hw, ?_⟩
  intro cfg k0 ls k hboot hrun
  have hinit : Sound M k0 ∧ Placed k0 ∧ SizesBelow k0 :=
    ⟨(boot_sound hboot).1, (boot_sound hboot).2, boot_sizesBelow hboot⟩
  have hinv := hrun.invariant (I := fun k => Sound M k ∧ Placed k ∧ SizesBelow k) hinit
    fun k l k' hk hstep => sbrkSteps_step hk.1 hk.2.1 hk.2.2 hstep
  exact hinv.2.2

theorem switchuvm_total {c page : Nat} (hstack : (k.proc i).kstack = some page)
    (hdir : (k.proc i).pgdir = some d) :
    switchuvm c i k = .ok ((), { k with cpu := k.flush c }) := by
  unfold switchuvm
  rw [getProc_bind, hstack, hdir]
  rfl

/-- A RUNNABLE process with a stack and a directory can be entered. -/
theorem dispatch_total {c page : Nat} (hc : (k.cpu c).proc = none) (hi : i < NPROC)
    (hrun : (k.proc i).state = .runnable) (hstack : (k.proc i).kstack = some page)
    (hdir : (k.proc i).pgdir = some d) : step M (.dispatch c i) k = .ok ((), entered k c i) := by
  have hret : Returns (dispatch c i) k fun _ k' => k' = entered k c i := by
    refine .bind (.of_ok (get_apply k) ?_)
    rw [if_pos ⟨hc, hi, hrun⟩]
    refine .bind (.of_ok rfl (.bind (.of_ok (switchuvm_total hstack hdir) (.of_ok rfl ?_))))
    simp [entered, Kernel.flush]
  obtain ⟨_, k', hdispatch, rfl⟩ := hret
  exact hdispatch

/-- A process that is not killed returns from a system call. -/
theorem syscall_returns {c : Nat} {r : Int} (call : Nat → KM Int) (context : Context)
    (hc : (k.cpu c).proc = some i) (hkilled : (k.proc i).killed = false)
    (hrun : call i k = .ok (r, k')) (hkilled' : (k'.proc i).killed = false) :
    ∃ tf, syscall M c context call k = .ok ((), { k' with
      proc := update k'.proc i { k'.proc i with tf := tf } }) := by
  have hmy : myproc c k = .ok (i, k) := by
    unfold myproc
    rw [hc]
  refine ⟨{ (k'.proc i).tf with eax := toUint r }, ?_⟩
  unfold syscall
  rw [bind_of_ok hmy, getProc_bind, hkilled, if_neg Bool.false_ne_true, bind_of_ok hrun]
  unfold modProc
  rw [bind_of_ok (modify_apply _ _), getProc_bind]
  simp [hkilled']

theorem sbrk_returns {c sz : Nat} {r : Int} (context : Context) (hc : (k.cpu c).proc = some i)
    (hkilled : (k.proc i).killed = false) (hrun : sysSbrk M i n k = .ok (r, resize k i s d sz)) :
    ∃ tf, step M (.sbrk c n context) k = .ok ((), { k with
      kmem := s
      proc := update k.proc i { k.proc i with pgdir := some d, sz := sz, tf := tf } }) := by
  obtain ⟨tf, hcall⟩ := syscall_returns (M := M) (fun i => sysSbrk M i n) context hc hkilled hrun
    (by simpa [resize] using hkilled)
  refine ⟨tf, hcall.trans ?_⟩
  simp [resize]

/-- A machine with a kernel of one megabyte. -/
def pc : Machine where
  dataPage := 0x108
  endPage := 0x200
  vramPage := 0xFD000
  vramPages := 0x300
  text_pos := by decide
  data_lt_end := by decide
  end_le := by decide
  vram_pos := by decide
  vram_fits := by decide
  vram_high := by decide
  vram_phys := by decide

theorem pc_boots : ∃ k, boot pc ⟨0, 0, [], fun _ _ => 0⟩ = .ok k ∧ 1000 ≤ k.kmem.freelist.length := by
  have hfits : Config.Fits ⟨0, 0, [], fun _ _ => 0⟩ pc := ⟨by decide, by decide, by decide⟩
  obtain ⟨k, hboot, hlen⟩ := boot_total hfits
  refine ⟨k, hboot, ?_⟩
  simp only [initCost, setupCost] at hlen
  omega

/-- A directory that maps page 0. -/
def progDir : PageDir :=
  ((PageDir.empty 0x301).addTable 0 0x302).setPte 0 ⟨0x300, PTE_W ||| PTE_U ||| PTE_P⟩

/-- Processes of this size with one page, in which all bytes are 7. -/
def lone (sz : Nat) : Kernel :=
  { blank (PageDir.empty 0x303) ⟨[], fun _ _ => 7⟩ with
    proc := fun _ => { Process.zero with sz := sz, pgdir := some progDir, state := .running } }

/-- The first process, in slot `n`, can run; it has the kernel stack `page` and the directory `d`, all
pages of which are pages of the allocator. -/
structure FirstRuns (M : Machine) (k0 : Kernel) (n page : Nat) (d : PageDir) : Prop where
  dispatch : step M (.dispatch 0 n) k0 = .ok ((), entered k0 0 n)
  slot : n < NPROC
  proc : (entered k0 0 n).proc n = { started Process.zero 1 page d with state := .running, chan := 0 }
  others : ∀ j, j ≠ n → (entered k0 0 n).proc j = Process.zero
  nextpid : k0.nextpid = 2
  range : ∀ q, 0 < single page q + d.own q → M.InRange q
  half : KernelHalf M d
  pages : ∀ v, v < userPages → (d.ent v).present = true → v ∈ ({0, stackPage, stackPage + 1} : Finset Nat)
  below : (d.ent stackPage).present = true
  top : (d.ent (stackPage + 1)).present = true

theorem boot_entered {cfg : Config} {k0 : Kernel} (h : boot M cfg = .ok k0) :
    ∃ n page d, FirstRuns M k0 n page d := by
  obtain ⟨kpgdir, s, n, page, d, lost, hstarted, taken, hledger⟩ := boot_ok h
  clear h
  obtain ⟨s', hk⟩ := hstarted.kernel
  have hproc : k0.proc n = started Process.zero 1 page d := by
    rw [hk]
    exact update_self ..
  have hcpu : (k0.cpu 0).proc = none := by
    rw [hk]
    rfl
  have hn := (findProc_some hstarted.slot).1
  refine ⟨n, page, d, ?_, hn, ?_, ?_, by rw [hk]; rfl, ?_, hstarted.half, ?_, hstarted.stack.1,
    hstarted.stack.2⟩
  · exact dispatch_total hcpu hn (by rw [hproc]; rfl) (by rw [hproc]; rfl) (by rw [hproc]; rfl)
  · rw [← hproc]
    exact update_self ..
  · intro j hj
    show update k0.proc n _ j = _
    rw [update_of_ne hj, hk]
    exact update_of_ne hj _ _
  · intro q hq
    by_contra hout
    have hall := hledger q
    rw [if_neg hout] at hall
    have htaken := hstarted.conserves.ledger q
    have hfree : (blank kpgdir s).kmem.free q = s.free q := rfl
    simp only [nothing] at htaken
    omega
  · intro v hv hp
    by_contra hout
    simp only [Finset.mem_insert, Finset.mem_singleton, not_or] at hout
    rw [hstarted.absent v hv hout.1 hout.2.1 hout.2.2] at hp
    cases hp

@[simp] theorem entered_cpu (k : Kernel) (c n : Nat) : ((entered k c n).cpu c).proc = some n := by
  simp [entered]

/-- A process gives half a page back; and the first process of a machine is started and
grows by a page. -/
theorem sbrk_contract_sample : Contract pc (lone 0x1000) 0 (-0x800) ∧
    ∃ k0 n context k, boot pc ⟨0, 0, [], fun _ _ => 0⟩ = .ok k0 ∧
      Run (SbrkSteps pc) k0 [.dispatch 0 n, .sbrk 0 0x1000 context] k ∧
      ∀ i, (k.proc i).sz ≤ KERNBASE := by
  constructor
  · apply ((sbrk_contract pc).1 (lone 0x1000) 0 progDir (-0x800) rfl (by decide) (by decide)).mpr
    exact .shrink (by decide) (by decide) (by decide)
  · obtain ⟨k0, hboot, -⟩ := pc_boots
    obtain ⟨n, page, d, hfirst⟩ := boot_entered hboot
    have hproc := hfirst.proc
    have hsz : (((entered k0 0 n).proc n).sz : Int) + 0x1000 ≤ KERNBASE := by
      rw [hproc]
      show (PGSIZE : Int) + 0x1000 ≤ KERNBASE
      decide
    obtain ⟨tf, hsbrk⟩ := sbrk_returns ⟨0, 0, 0, 0, 0⟩ (entered_cpu k0 0 n)
      (by rw [hproc]; rfl) (sysSbrk_grow (M := pc) (by rw [hproc]; rfl) (by decide : (0 : Int) ≤ 0x1000))
    have hdispatch : SbrkSteps pc k0 (.dispatch 0 n) (entered k0 0 n) :=
      ⟨hfirst.dispatch, by rintro _ _ _ ⟨⟩⟩
    have hrun := (Run.single hdispatch).snoc (R := SbrkSteps pc) ⟨hsbrk, ?_⟩
    · exact ⟨k0, n, _, _, hboot, hrun, (sbrk_contract pc).2 _ _ _ _ hboot hrun⟩
    · rintro c m context heq
      cases heq
      refine ⟨by decide, ?_⟩
      intro i d hc _ _
      rw [entered_cpu] at hc
      cases hc
      exact .grow (by decide) hsz

/-- Giving all memory back is an error that has taken the memory, growing has no bound, and
giving back more than there is wraps around. -/
theorem sbrk_breaks : ¬Contract pc (lone 0x1000) 0 (-0x1000) ∧ ¬Contract pc (lone 0x1000) 0 0x7fffffff ∧
    ¬Contract pc (lone 0x1000) 0 (-0x1001) := by
  have hdir : ((lone 0x1000).proc 0).pgdir = some progDir := rfl
  have hsz : ((lone 0x1000).proc 0).sz ≤ KERNBASE := by decide
  refine ⟨?_, ?_, ?_⟩
  · rw [contract_empties hdir hsz (by decide) (by decide)]
    intro habs
    exact absurd (habs 0 (by decide)) (by decide)
  · rw [contract_grow hdir hsz (by decide) (by decide)]
    decide
  · rw [contract_wraps hdir hsz (by decide) (by decide) (by decide)]
    decide

end Proc
end Xv6
