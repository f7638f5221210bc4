import Xv6.Proc.Step
import Xv6.Vm.Total

/-!
# Booting (`main.c`, `kalloc.c`, `proc.c`)

The kernel puts the physical pages between its end and `PHYSTOP` on the free list,
in two phases, builds its own page directory and the first process.  The stacks of
other CPUs and the buffers of device drivers are taken from the free list and
never given back.

Every state that boots satisfies the invariant of the process table
(`boot_sound`), and a machine with a small kernel does boot (`boot_total`).
-/

namespace Xv6
namespace Proc

open Lib Lib.Exec Vm Function

/-- What varies from boot to boot: the number of other CPUs, the pages taken by
device drivers, the first program, and the initial contents of memory. -/
structure Config where
  others : Nat
  drivers : Nat
  initcode : List UInt8
  mem : Nat → Nat → UInt8

variable (M : Machine)

/-- The pages mapped by `entrypgdir`. -/
def kinit1 : VmM Unit := freerange M (P2V (M.endPage * PGSIZE)) (P2V (4 * 1024 * 1024))

/-- The rest of the physical pages. -/
def kinit2 : VmM Unit := freerange M (P2V (4 * 1024 * 1024)) (P2V PHYSTOP)

/-- Allocate one page table for the machine for the kernel address space; a null
result is dereferenced. -/
def kvmalloc : VmM PageDir := do
  match ← setupkvm M with
  | none => Exec.stop .wild
  | some d => pure d

/-- Pages taken for good. -/
def takePages : Nat → VmM Unit
  | 0 => pure ()
  | n + 1 => do
    let _ ← kalloc
    takePages n

/-- The order in which `main` sets up memory: the two phases of the allocator have the
kernel's page directory and the stacks of the other CPUs between them. -/
def setupMemory (low high : VmM Unit) (kvm : VmM PageDir) (others drivers : Nat) :
    VmM PageDir := do
  low
  let kpgdir ← kvm
  takePages others
  high
  takePages drivers
  pure kpgdir

/-- `main` up to `userinit`; returns `kpgdir`. -/
def bootMemory (cfg : Config) : VmM PageDir :=
  setupMemory (kinit1 M) (kinit2 M) (kvmalloc M) cfg.others cfg.drivers

/-- The inode number of the root directory. -/
def ROOTINO : Nat := 1

/-- A trap frame of zeros. -/
def Trapframe.zero : Trapframe := ⟨0, 0, 0, 0, 0, 0, 0, 0, fun _ => 0⟩

/-- A slot of the process table before its first use. -/
def Process.zero : Process where
  sz := 0
  pgdir := none
  kstack := none
  state := .unused
  pid := 0
  parent := none
  tf := Trapframe.zero
  context := ⟨0, 0, 0, 0, 0⟩
  chan := 0
  killed := false
  ofile := fun _ => none
  cwd := none
  name := []
  scheduler := 0
  checkThread := 0
  priority := 0
  ticks := fun _ => 0
  waitTicks := fun _ => 0

/-- The kernel before `userinit`. -/
def blank (kpgdir : PageDir) (s : Kmem) : Kernel where
  kmem := s
  kpgdir := kpgdir
  proc := fun _ => Process.zero
  nextpid := 1
  initproc := 0
  ftable := fun _ => ⟨.none, 0, false, false, 0, 0⟩
  iref := fun _ => 0
  pipe := fun _ => none
  npipe := 0
  cpu := fun _ => ⟨none, 0⟩

/-- The registers of the first process: user segments, interrupts on, the stack
below `USERSTACKTOP`, execution from address 0. -/
def initFrame : Trapframe :=
  { Trapframe.zero with
    cs := 0x1B, ds := 0x23, es := 0x23, ss := 0x23, eflags := 0x200, esp := USERSTACKTOP - 4 }

/-- `"initcode"`. -/
def initName : List UInt8 := [105, 110, 105, 116, 99, 111, 100, 101]

/-- Set up first user process. -/
def userinit (initcode : List UInt8) : KM Unit := do
  match ← allocproc with
  | none => Exec.stop .wild
  | some i => do
    Exec.modify fun k => { k with initproc := i }
    match ← liftVm (setupkvm M) with
    | none => Exec.stop (.panic .userinit)
    | some d => do
      let d ← liftVm (inituvm d initcode)
      if PGSIZE > USERSTACKTOP - PGSIZE then
        Exec.stop (.panic .userinit)
      else do
        let (d, r) ← liftVm (allocuvm M d (USERSTACKTOP - 2 * PGSIZE) USERSTACKTOP)
        if r = 0 then
          Exec.stop (.panic .userinit)
        else do
          idup ROOTINO
          modProc i fun p =>
            { p with pgdir := some d, sz := PGSIZE, tf := initFrame,
                     name := safestrcpy initName, cwd := some ROOTINO, state := .runnable }

/-- The order in which `main` starts the kernel: first memory, then the first process. -/
def startKernel (memory : VmM PageDir) (init : KM Unit) (mem : Nat → Nat → UInt8) :
    Except Stop Kernel :=
  match memory ⟨[], mem⟩ with
  | .error e => .error e
  | .ok (kpgdir, s) =>
    match init (blank kpgdir s) with
    | .error e => .error e
    | .ok (_, k) => .ok k

/-- Boot the machine. -/
def boot (cfg : Config) : Except Stop Kernel :=
  startKernel (bootMemory M cfg) (userinit M cfg.initcode) cfg.mem

variable {M : Machine} {s s' : Kmem}

/-! ## The free list after `kinit1` and `kinit2` -/

/-- The pages from `a` up to `b`, once each. -/
def pagesBetween (a b page : Nat) : Nat := if a ≤ page ∧ page < b then 1 else 0

theorem freerangeLoop_total {first n : Nat} (hfirst : M.endPage ≤ first)
    (hlast : first + n ≤ PHYSTOP / PGSIZE) (s : Kmem) :
    ∃ t, freerangeLoop M first n s = .ok ((), t) ∧
      t.freelist.length = s.freelist.length + n := by
  induction n with
  | zero => exact ⟨s, rfl, rfl⟩
  | succ n ih =>
    obtain ⟨t, hrun, hlen⟩ := ih (by omega)
    have hlen' : ((first + n) :: t.freelist).length = s.freelist.length + (n + 1) := by
      simp only [List.length_cons]
      omega
    refine ⟨⟨(first + n) :: t.freelist, update t.mem (first + n) fun _ => 1⟩, ?_, hlen'⟩
    unfold freerangeLoop
    rw [bind_of_ok hrun]
    exact kfree_of_inRange ⟨by omega, by omega⟩ t

variable {u : Unit}

theorem freerangeLoop_conserves {first n : Nat} (h : freerangeLoop M first n s = .ok (u, s')) :
    Conserves s s' (pagesBetween first (first + n)) nothing := by
  induction n generalizing s' u with
  | zero =>
    cases h
    refine (Conserves.refl _ nothing).congr (fun p => ?_) fun _ => rfl
    simp only [pagesBetween, nothing]
    rw [if_neg (by omega)]
  | succ n ih =>
    obtain ⟨_, t, hfirst, hlast⟩ := bind_eq_ok.mp h
    refine (((ih hfirst).carry (single (first + n))).trans
      ((kfree_conserves hlast).congr (fun p => by simp [nothing]) fun _ => rfl)).congr
      (fun p => ?_) fun _ => rfl
    simp only [pagesBetween, single]
    split_ifs <;> omega

theorem kinit1_eq (M : Machine) :
    kinit1 M = freerangeLoop M M.endPage (1024 - M.endPage) := by
  have hle := M.end_le
  simp only [PGSIZE] at hle
  unfold kinit1 freerange
  congr 1
  all_goals
    simp only [PGROUNDUP, P2V, V2P, KERNBASE, PGSIZE]
    omega

theorem kinit2_eq (M : Machine) : kinit2 M = freerangeLoop M 1024 (0x20000 - 1024) := by
  unfold kinit2 freerange
  congr 1

/-- The pages of `kinit1`. -/
def lowPages (M : Machine) : Nat → Nat := pagesBetween M.endPage 1024

/-- The pages of `kinit2`. -/
def highPages : Nat → Nat := pagesBetween 1024 0x20000

theorem kinit1_conserves (h : kinit1 M s = .ok (u, s')) :
    Conserves s s' (lowPages M) nothing := by
  have hend : M.endPage ≤ 1024 := M.end_le
  rw [kinit1_eq] at h
  have hc := freerangeLoop_conserves h
  rw [show M.endPage + (1024 - M.endPage) = 1024 by omega] at hc
  exact hc

theorem kinit2_conserves (h : kinit2 M s = .ok (u, s')) :
    Conserves s s' highPages nothing := by
  rw [kinit2_eq] at h
  exact freerangeLoop_conserves h

/-- Together the two phases cover the pages of the allocator once each. -/
theorem lowPages_add_highPages (M : Machine) (p : Nat) :
    lowPages M p + highPages p = if M.InRange p then 1 else 0 := by
  have hend : M.endPage ≤ 1024 := M.end_le
  have hrange : M.InRange p ↔ M.endPage ≤ p ∧ p < 0x20000 := Iff.rfl
  unfold lowPages highPages pagesBetween
  by_cases hin : M.InRange p
  · rw [if_pos hin]
    rw [hrange] at hin
    split_ifs <;> omega
  · rw [if_neg hin]
    rw [hrange] at hin
    rw [if_neg (by omega), if_neg (by omega)]

theorem takePages_conserves {n : Nat} (h : takePages n s = .ok (u, s')) :
    ∃ taken, Conserves s s' nothing taken := by
  induction n generalizing s with
  | zero =>
    cases h
    exact ⟨nothing, Conserves.refl _ _⟩
  | succ n ih =>
    obtain ⟨q, t, hk, hrest⟩ := bind_eq_ok.mp h
    obtain ⟨taken, hc⟩ := ih hrest
    cases q with
    | none =>
      obtain rfl := kalloc_none hk
      exact ⟨taken, hc⟩
    | some page =>
      exact ⟨fun p => taken p + single page p, (kalloc_some hk).1.trans
        ((hc.carry (single page)).congr (fun p => by simp [nothing]) fun _ => rfl)⟩

theorem takePages_total {n : Nat} (hlen : n ≤ s.freelist.length) :
    ∃ t, takePages n s = .ok ((), t) ∧ Spends n s t := by
  induction n generalizing s with
  | zero => exact ⟨s, rfl, Spends.refl s⟩
  | succ n ih =>
    obtain ⟨page, t, hk, hsp⟩ := kalloc_total (s := s) (by omega)
    have hspent : s.freelist.length ≤ t.freelist.length + 1 := hsp
    obtain ⟨t', hrest, hsp'⟩ := ih (s := t) (by omega)
    refine ⟨t', ?_, (hsp.trans hsp').mono (by omega)⟩
    unfold takePages
    rw [bind_of_ok hk]
    exact hrest

variable {d kpgdir : PageDir}

theorem kvmalloc_conserves (h : kvmalloc M s = .ok (kpgdir, s')) :
    Conserves s s' nothing kpgdir.own := by
  unfold kvmalloc at h
  obtain ⟨r, t, hsetup, h1⟩ := bind_eq_ok.mp h
  rcases setupkvm_ok hsetup with ⟨d, rfl, hc, -⟩ | ⟨rfl, -⟩
  · cases h1
    exact hc
  · cases h1

/-- The stages of `setupMemory`.  The phases are variables: those of the kernel are
thousands of steps long and must not be evaluated. -/
theorem setupMemory_ok {low high : VmM Unit} {kvm : VmM PageDir} {others drivers : Nat}
    (h : setupMemory low high kvm others drivers s = .ok (d, s')) :
    ∃ s1 s2 s3 s4, low s = .ok ((), s1) ∧ kvm s1 = .ok (d, s2) ∧
      takePages others s2 = .ok ((), s3) ∧ high s3 = .ok ((), s4) ∧
      takePages drivers s4 = .ok ((), s') := by
  unfold setupMemory at h
  simp only [bind_eq_ok] at h
  obtain ⟨_, s1, hlow, d, s2, hkvm, _, s3, hothers, _, s4, hhigh, _, s5, hdrivers, h1⟩ := h
  cases h1
  exact ⟨s1, s2, s3, s4, hlow, hkvm, hothers, hhigh, hdrivers⟩

variable {cfg : Config}

/-- After `main` has set up memory, every page between the end of the kernel and
`PHYSTOP` is on the free list, in `kpgdir`, or taken for good, exactly once. -/
theorem bootMemory_ok (hnil : s.freelist = []) (h : bootMemory M cfg s = .ok (kpgdir, s')) :
    ∃ taken : Nat → Nat, ∀ p, s'.free p + kpgdir.own p + taken p = if M.InRange p then 1 else 0 := by
  obtain ⟨s1, s2, s3, s4, hlow, hkvm, hothers, hhigh, hdrivers⟩ := setupMemory_ok h
  obtain ⟨x, hc3⟩ := takePages_conserves hothers
  obtain ⟨y, hc5⟩ := takePages_conserves hdrivers
  refine ⟨fun p => x p + y p, fun p => ?_⟩
  have h1 := (kinit1_conserves hlow).ledger p
  have h2 := (kvmalloc_conserves hkvm).ledger p
  have h3 := hc3.ledger p
  have h4 := (kinit2_conserves hhigh).ledger p
  have h5 := hc5.ledger p
  have hempty : s.free p = 0 := by simp [Kmem.free, hnil]
  have hall := lowPages_add_highPages M p
  simp only [nothing] at h1 h2 h3 h4 h5
  dsimp only
  omega

/-! ## The first process -/

/-- The slot of the first process. -/
def started (p : Process) (pid page : Nat) (d : PageDir) : Process :=
  { embryo p pid page with
    pgdir := some d, sz := PGSIZE, tf := initFrame, name := safestrcpy initName,
    cwd := some ROOTINO, state := .runnable }

/-- The first user page of the stack of the first process. -/
def stackPage : Nat := USERSTACKTOP / PGSIZE - 2

/-- What `userinit` did: slot `n` has stack `page` and directory `d`, which maps
the page of the program, if there was memory for it, and two pages of stack. -/
structure Started (M : Machine) (k k' : Kernel) (n page : Nat) (d : PageDir)
    (lost : Nat → Nat) : Prop where
  slot : findProc k (fun p => p.state == .unused) = some n
  kernel : ∃ s, k' = { k with
    kmem := s, nextpid := k.succPid, initproc := n
    proc := update k.proc n (started (k.proc n) k.nextpid page d)
    iref := update k.iref ROOTINO (k.iref ROOTINO + 1) }
  half : KernelHalf M d
  conserves : Conserves k.kmem k'.kmem nothing fun p => single page p + d.own p + lost p
  stack : (d.ent stackPage).present = true ∧ (d.ent (stackPage + 1)).present = true
  absent : ∀ v, v < userPages → v ≠ 0 → v ≠ stackPage → v ≠ stackPage + 1 →
    (d.ent v).present = false

/-- The address space of the first process, made of free pages. -/
theorem initSpace_ok {d1 d2 : PageDir} {s1 s2 s3 : Kmem} {init : List UInt8} {r : Nat}
    (hsetup : setupkvm M s = .ok (some d, s1)) (hinit : inituvm d init s1 = .ok (d1, s2))
    (halloc : allocuvm M d1 (USERSTACKTOP - 2 * PGSIZE) USERSTACKTOP s2 = .ok ((d2, r), s3))
    (hr : r ≠ 0) :
    ∃ lost : Nat → Nat, Conserves s s3 nothing (fun p => d2.own p + lost p) ∧ KernelHalf M d2 ∧
      ((d2.ent stackPage).present = true ∧ (d2.ent (stackPage + 1)).present = true) ∧
      (∀ v, v < userPages → v ≠ 0 → v ≠ stackPage → v ≠ stackPage + 1 →
        (d2.ent v).present = false) := by
  obtain ⟨d0, hd0, hc1, hent⟩ | ⟨hnone, -⟩ := setupkvm_ok hsetup
  · cases hd0
    obtain ⟨mem, mapped, hmapped, hc2⟩ := inituvm_ok hinit
    have hall : Allocated d1 d2 stackPage USERSTACKTOP r s2 s3 := by
      unfold allocuvm at halloc
      rw [if_neg (by decide), if_neg (by decide)] at halloc
      exact allocLoop_ok (by decide) halloc
    have hhalf : KernelHalf M d2 := by
      apply SameKernel.kernelHalf ((hmapped.sameKernel (by decide)).trans hall.sameKernel)
      exact fun v _ hv => hent v hv
    -- outside the stack, the entries are those `inituvm` left
    have hout : ∀ v, v < userPages → v ≠ stackPage → v ≠ stackPage + 1 → d2.ent v = d1.ent v := by
      intro v hv hne hne'
      apply hall.outside hr v (Nat.lt_trans hv (by decide))
      unfold stackPage USERSTACKTOP KERNBASE PGSIZE at *
      omega
    refine ⟨fun p => if mapped = true then 0 else single mem p, ?_, hhalf, ⟨?_, ?_⟩, ?_⟩
    · have hc3 := hall.conserves.carry fun p => if mapped = true then 0 else single mem p
      exact (hc1.trans hc2).trans hc3
    · exact hall.covers hr _ le_rfl (by decide)
    · exact hall.covers hr _ (Nat.le_succ _) (by decide)
    · intro v hv h0 hne hne'
      rw [hout v hv hne hne', hmapped.ent v (Nat.lt_trans hv (by decide)), if_neg fun hc => h0 hc.1,
        hent v (Nat.lt_trans hv (by decide)), kernelEnt_user M hv]
      rfl
  · cases hnone

variable {k : Kernel}

theorem userinit_ok {k' : Kernel} {initcode : List UInt8}
    (h : userinit M initcode k = .ok (u, k')) :
    ∃ n page d lost, Started M k k' n page d lost := by
  unfold userinit at h
  obtain ⟨q, k1, hproc, h1⟩ := bind_eq_ok.mp h
  rcases allocproc_ok hproc with ⟨rfl, -, rfl⟩ | ⟨n, hn, ⟨rfl, -, rfl⟩ | ⟨page, s, rfl, hk, rfl⟩⟩
  · cases h1
  · cases h1
  · simp only [bind_eq_ok] at h1
    obtain ⟨_, k2, hmod, q, k3, hset, h2⟩ := h1
    cases hmod
    obtain ⟨s1, hset', rfl⟩ := liftVm_ok hset
    cases q with
    | none => cases h2
    | some d =>
      simp only [bind_eq_ok] at h2
      obtain ⟨d1, k4, hinit, h3⟩ := h2
      obtain ⟨s2, hinit', rfl⟩ := liftVm_ok hinit
      have hfits : ¬PGSIZE > USERSTACKTOP - PGSIZE := by decide
      rw [if_neg hfits] at h3
      simp only [bind_eq_ok] at h3
      obtain ⟨⟨d2, r⟩, k5, halloc, h4⟩ := h3
      obtain ⟨s3, halloc', rfl⟩ := liftVm_ok halloc
      split_ifs at h4 with hr
      · cases h4
      · obtain ⟨_, k6, hcwd, h5⟩ := bind_eq_ok.mp h4
        cases hcwd
        cases h5
        obtain ⟨lost, hcons, hhalf, hstack, habs⟩ := initSpace_ok hset' hinit' halloc' hr
        refine ⟨n, page, d2, lost, hn, ⟨s3, ?_⟩, hhalf, ?_, hstack, habs⟩
        · simp [started, embryo]
        · refine ((kalloc_some hk).1.trans ((hcons.carry (single page)).congr
            (fun p => by simp [nothing]) fun _ => rfl)).congr (fun _ => rfl) fun p => ?_
          omega

/-- The two halves of `startKernel`.  As in `setupMemory_ok`, they are variables. -/
theorem startKernel_ok {memory : VmM PageDir} {init : KM Unit} {mem : Nat → Nat → UInt8}
    (h : startKernel memory init mem = .ok k) :
    ∃ kpgdir s u, memory ⟨[], mem⟩ = .ok (kpgdir, s) ∧ init (blank kpgdir s) = .ok (u, k) := by
  unfold startKernel at h
  cases hmem : memory ⟨[], mem⟩ with
  | error e =>
    rw [hmem] at h
    cases h
  | ok q =>
    obtain ⟨kpgdir, s⟩ := q
    rw [hmem] at h
    dsimp only at h
    cases hinit : init (blank kpgdir s) with
    | error e =>
      rw [hinit] at h
      cases h
    | ok q =>
      obtain ⟨u, k1⟩ := q
      rw [hinit] at h
      cases h
      exact ⟨kpgdir, s, u, rfl, hinit⟩

theorem startKernel_total {memory : VmM PageDir} {init : KM Unit} {mem : Nat → Nat → UInt8}
    (hmem : memory ⟨[], mem⟩ = .ok (kpgdir, s))
    (hinit : init (blank kpgdir s) = .ok (u, k)) : startKernel memory init mem = .ok k := by
  unfold startKernel
  rw [hmem]
  dsimp only
  rw [hinit]

/-- What holds of a kernel that has booted. -/
theorem boot_ok (h : boot M cfg = .ok k) :
    ∃ kpgdir s n page d lost, Started M (blank kpgdir s) k n page d lost ∧
      ∃ taken : Nat → Nat, ∀ p, s.free p + kpgdir.own p + taken p = if M.InRange p then 1 else 0 := by
  obtain ⟨kpgdir, s, u, hmem, hinit⟩ := startKernel_ok h
  obtain ⟨n, page, d, lost, hstarted⟩ := userinit_ok hinit
  obtain ⟨taken, hledger⟩ := bootMemory_ok rfl hmem
  exact ⟨kpgdir, s, n, page, d, lost, hstarted, taken, hledger⟩

/-- Before `userinit` nothing but the free list and `kpgdir` has pages. -/
theorem blank_sound {taken : Nat → Nat}
    (hledger : ∀ p, s.free p + kpgdir.own p + taken p = if M.InRange p then 1 else 0) :
    Sound M (blank kpgdir s) := by
  refine ⟨fun p => ?_, fun i x hx => ?_, fun i => ?_, fun id _ => rfl⟩
  · have hp := hledger p
    have hone : (if M.InRange p then 1 else 0) ≤ 1 := by split_ifs <;> decide
    have hnone : (blank kpgdir s).procOwn p = 0 := by
      simp [Kernel.procOwn, blank, Process.zero, Process.space]
    have hpipe : (blank kpgdir s).pipeOwn p = 0 := rfl
    show s.free p + kpgdir.own p + (blank kpgdir s).procOwn p + (blank kpgdir s).pipeOwn p ≤ 1
    omega
  · simp [blank, Process.zero, Process.space] at hx
  · show 0 < 2 ^ 32
    decide

/-- Every state that boots satisfies the invariant. -/
theorem boot_sound (h : boot M cfg = .ok k) : Sound M k ∧ Placed k := by
  obtain ⟨kpgdir, s, n, page, d, lost, hstarted, taken, hledger⟩ := boot_ok h
  clear h
  have hn := (findProc_some hstarted.slot).1
  obtain ⟨s', hk⟩ := hstarted.kernel
  have hproc : k.proc n = started ((blank kpgdir s).proc n) (blank kpgdir s).nextpid page d := by
    rw [hk]
    exact update_self ..
  have hspace : (k.proc n).space = some (some page, some d) := by
    rw [hproc]
    rfl
  have hmoves : Moves n (blank kpgdir s) k := by
    refine ⟨fun j hj => ?_, by rw [hk], by rw [hk], by rw [hk], lost, ?_⟩
    · rw [hk]
      exact update_of_ne hj ..
    · refine hstarted.conserves.congr (fun _ => rfl) fun p => ?_
      rw [hspace, spaceOwn_some]
  constructor
  · refine hmoves.sound hn (blank_sound hledger) ?_ ?_
    · intro x hx
      rw [hspace] at hx
      cases hx
      exact ⟨page, d, rfl, hstarted.half⟩
    · rw [hproc]
      show PGSIZE < 2 ^ 32
      decide
  · have hcpu : ∀ c, (k.cpu c).proc = none := by
      intro c
      rw [hk]
      rfl
    refine ⟨fun c i hc => ?_, fun c c' i hc => ?_⟩
    · rw [hcpu c] at hc
      cases hc
    · rw [hcpu c] at hc
      cases hc

/-! ## Booting succeeds -/

theorem setupMemory_total {low high : VmM Unit} {kvm : VmM PageDir} {others drivers : Nat}
    {s1 s2 s3 s4 : Kmem} (hlow : low s = .ok ((), s1)) (hkvm : kvm s1 = .ok (d, s2))
    (hothers : takePages others s2 = .ok ((), s3)) (hhigh : high s3 = .ok ((), s4))
    (hdrivers : takePages drivers s4 = .ok ((), s')) :
    setupMemory low high kvm others drivers s = .ok (d, s') := by
  unfold setupMemory
  rw [bind_of_ok hlow, bind_of_ok hkvm, bind_of_ok hothers, bind_of_ok hhigh, bind_of_ok hdrivers]
  rfl

/-- Pages that are enough for the first process: its kernel stack, its directory, the page
of the program and two pages of stack, with their tables. -/
def initCost : Nat := setupCost + 7

/-- The pages that are needed between the end of the kernel and 4 MB, and above. -/
structure Config.Fits (cfg : Config) (M : Machine) : Prop where
  initcode : cfg.initcode.length < PGSIZE
  others : setupCost + cfg.others ≤ 1024 - M.endPage
  drivers : cfg.drivers + initCost ≤ 0x20000 - 1024

theorem bootMemory_total (h : cfg.Fits M) : ∃ kpgdir s,
    bootMemory M cfg ⟨[], cfg.mem⟩ = .ok (kpgdir, s) ∧
      0x20000 - 1024 ≤ s.freelist.length + cfg.drivers := by
  have hothers := h.others
  have hdrivers := h.drivers
  have hend : M.endPage ≤ 1024 := M.end_le
  obtain ⟨s1, hlow, hlen1⟩ := freerangeLoop_total (M := M) (Nat.le_refl M.endPage)
    (show M.endPage + (1024 - M.endPage) ≤ PHYSTOP / PGSIZE by
      rw [Nat.add_sub_cancel' hend]
      decide) ⟨[], cfg.mem⟩
  rw [← kinit1_eq] at hlow
  replace hlen1 : s1.freelist.length = 1024 - M.endPage := by
    rw [hlen1]
    exact Nat.zero_add _
  obtain ⟨d, s2, hsetup, hsp2⟩ := setupkvm_total (M := M) (s := s1) (by omega)
  have hkvm : kvmalloc M s1 = .ok (d, s2) := by
    unfold kvmalloc
    rw [bind_of_ok hsetup]
    rfl
  have hlen2 : s1.freelist.length ≤ s2.freelist.length + setupCost := hsp2
  obtain ⟨s3, htake, hsp3⟩ := takePages_total (s := s2) (n := cfg.others) (by omega)
  obtain ⟨s4, hhigh, hlen4⟩ := freerangeLoop_total (M := M) hend
    (show 1024 + (0x20000 - 1024) ≤ PHYSTOP / PGSIZE by decide) s3
  rw [← kinit2_eq] at hhigh
  obtain ⟨s5, htake5, hsp5⟩ := takePages_total (s := s4) (n := cfg.drivers) (by omega)
  have hlen5 : s4.freelist.length ≤ s5.freelist.length + cfg.drivers := hsp5
  exact ⟨d, s5, setupMemory_total hlow hkvm htake hhigh htake5, by omega⟩

theorem allocproc_total {n page : Nat} {s : Kmem}
    (hn : findProc k (fun p => p.state == .unused) = some n)
    (hk : kalloc k.kmem = .ok (some page, s)) :
    allocproc k = .ok (some n, { k with
      kmem := s
      proc := update k.proc n (embryo (k.proc n) k.nextpid page)
      nextpid := k.succPid }) := by
  have hret : Returns allocproc k fun r _ => r = some n := by
    refine .bind (.of_ok (get_apply k) ?_)
    rw [hn]
    refine .bind (.of_ok rfl (.bind (.of_ok rfl ?_)))
    refine .bind (.of_ok (liftVm_of_ok hk) ?_)
    exact .bind (.of_ok rfl (.of_ok rfl rfl))
  obtain ⟨_, k', hrun, rfl⟩ := hret
  rcases allocproc_ok hrun with ⟨hnone, -⟩ | ⟨m, hm, ⟨hnone, -⟩ | ⟨page', s', -, hk', rfl⟩⟩
  · cases hnone
  · cases hnone
  · rw [hn] at hm
    cases hm
    rw [hk] at hk'
    cases hk'
    exact hrun

/-- With enough free pages the first process is set up. -/
theorem userinit_total {initcode : List UInt8}
    (hinit : initcode.length < PGSIZE) (hlen : initCost ≤ s.freelist.length) :
    Returns (userinit M initcode) (blank kpgdir s) fun _ k => Spends initCost s k.kmem := by
  unfold initCost at hlen
  obtain ⟨page, s1, hk, hsp1⟩ := kalloc_total (s := s) (by omega)
  have hlen1 : s.freelist.length ≤ s1.freelist.length + 1 := hsp1
  obtain ⟨d, s2, hsetup, hsp2⟩ := setupkvm_total (M := M) (s := s1) (by omega)
  have hlen2 : s1.freelist.length ≤ s2.freelist.length + setupCost := hsp2
  obtain ⟨d', hd', -, hent⟩ | ⟨hnone, -⟩ := setupkvm_ok hsetup
  · cases hd'
    have habs : (d.ent 0).present = false := by
      rw [hent 0 (by decide), kernelEnt_user M (by decide)]
      rfl
    obtain ⟨d1, s3, hinit', hsp3⟩ := inituvm_total hinit habs (s := s2) (by omega)
    have hlen3 : s2.freelist.length ≤ s3.freelist.length + 2 := hsp3
    obtain ⟨mem, mapped, hmapped, -⟩ := inituvm_ok hinit'
    have hstack : ∀ u, stackPage ≤ u → u < stackPage + 2 → (d1.ent u).present = false := by
      intro u hu hu'
      have hlt : u < userPages := Nat.lt_trans hu' (by decide)
      have hne : u ≠ 0 := by
        rintro rfl
        exact absurd hu (by decide)
      rw [hmapped.ent u (Nat.lt_trans hlt (by decide)), if_neg fun hc => hne hc.1,
        hent u (Nat.lt_trans hlt (by decide)), kernelEnt_user M hlt]
      rfl
    obtain ⟨d2, s4, halloc, hsp4⟩ : ∃ d' t, allocLoop M (USERSTACKTOP - 2 * PGSIZE)
        ((stackPage + 2) * PGSIZE) (2 ^ 20) d1 (stackPage * PGSIZE) s3 =
          .ok ((d', (stackPage + 2) * PGSIZE), t) ∧ Spends _ s3 t :=
      allocLoop_total (by decide) le_rfl (Nat.le_add_right _ _) (by decide) hstack (by omega)
    have halloc' : allocuvm M d1 (USERSTACKTOP - 2 * PGSIZE) USERSTACKTOP s3 =
        .ok ((d2, USERSTACKTOP), s4) := by
      unfold allocuvm
      rw [if_neg (by decide), if_neg (by decide)]
      exact halloc
    have hproc := allocproc_total (k := blank kpgdir s) (n := 0) rfl hk
    refine .bind (.of_ok hproc (.bind (.of_ok rfl ?_)))
    refine .bind (.of_ok (liftVm_of_ok hsetup) ?_)
    refine .bind (.of_ok (liftVm_of_ok hinit') ?_)
    have hfits : ¬PGSIZE > USERSTACKTOP - PGSIZE := by decide
    rw [if_neg hfits]
    refine .bind (.of_ok (liftVm_of_ok halloc') ?_)
    exact .of_ok rfl ((((hsp1.trans hsp2).trans hsp3).trans hsp4).mono (by unfold initCost; omega))
  · cases hnone

/-- A machine whose kernel and drivers leave enough memory boots. -/
theorem boot_total (h : cfg.Fits M) : ∃ k, boot M cfg = .ok k ∧
    0x20000 - 1024 ≤ k.kmem.freelist.length + initCost + cfg.drivers := by
  obtain ⟨kpgdir, s, hmem, hlen⟩ := bootMemory_total h
  have hdrivers := h.drivers
  obtain ⟨_, k, hinit, hsp⟩ : Returns (userinit M cfg.initcode) (blank kpgdir s) fun _ k =>
      Spends initCost s k.kmem := userinit_total h.initcode (by omega)
  have hspent : s.freelist.length ≤ k.kmem.freelist.length + initCost := hsp
  exact ⟨k, startKernel_total hmem hinit, by omega⟩

end Proc
end Xv6
