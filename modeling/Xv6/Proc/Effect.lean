import Xv6.Proc.Owner

/-!
# What the system calls do to memory

For every system call and trap that allocates, frees or replaces pages, one lemma
says what it did: which slot of the process table changed and how pages moved.
The call `exit`, which every trap may end in, gives up the CPU and closes files
but leaves the address space to `wait`.
-/

namespace Xv6
namespace Proc

open Lib Lib.Exec Vm Function

variable {M : Machine} {k k' : Kernel}

/-! ## The invariant of the process table -/

/-- What holds of the processes and of memory in every reachable state: no page
has two owners, and every slot in use has a stack and a page directory that maps
the kernel. -/
structure Sound (M : Machine) (k : Kernel) : Prop where
  owners : ∀ page, k.owners page ≤ 1
  live : ∀ i x, (k.proc i).space = some x → ∃ page d, x = (some page, some d) ∧ KernelHalf M d
  sz : ∀ i, (k.proc i).sz < 2 ^ 32
  pipes : PipesBelow k

/-- Every CPU runs a process in state RUNNING, and no two run the same one. -/
structure Placed (k : Kernel) : Prop where
  running : ∀ c i, (k.cpu c).proc = some i → i < NPROC ∧ (k.proc i).state = .running
  exclusive : ∀ c c' i, (k.cpu c).proc = some i → (k.cpu c').proc = some i → c = c'

namespace Sound

theorem free_le_one (h : Sound M k) (page : Nat) : k.kmem.free page ≤ 1 := by
  have := h.owners page
  simp only [Kernel.owners] at this
  omega

/-- A page of a slot in use is not free. -/
theorem free_eq_zero (h : Sound M k) {i page : Nat} (hi : i < NPROC)
    (hp : 0 < spaceOwn (k.proc i).space page) : k.kmem.free page = 0 := by
  have := h.owners page
  have := spaceOwn_le_procOwn k hi page
  simp only [Kernel.owners] at *
  omega

end Sound

variable {d d' : PageDir}

/-- A page mapped by a slot's directory below `KERNBASE` belongs to the slot. -/
theorem spaceOwn_pos {p : Process} {v : Nat} (hstate : p.state ≠ .unused)
    (hd : p.pgdir = some d) (hv : v < userPages) (hp : (d.ent v).present = true) :
    0 < spaceOwn p.space (d.ent v).ppn := by
  rw [space_of_used hstate, hd]
  have := own_pos_of_present hv hp
  simp only [spaceOwn, dirOwn]
  omega

theorem Calm.owners_eq (h : Calm k k') (page : Nat) : k'.owners page = k.owners page := by
  have hproc : k'.procOwn page = k.procOwn page :=
    Finset.sum_congr rfl fun i _ => by rw [h.space i]
  have := h.conserves.ledger page
  simp only [Kernel.owners, h.kpgdir, hproc]
  omega

theorem Calm.sound (h : Calm k k') (hk : Sound M k) : Sound M k' where
  owners page := by
    rw [h.owners_eq page]
    exact hk.owners page
  live i x hx := hk.live i x (by rw [← h.space i]; exact hx)
  sz i := by
    rw [(h.same i).sz]
    exact hk.sz i
  pipes := h.pipes hk.pipes

theorem Still.placed (h : Still k k') (hk : Placed k) : Placed k' where
  running c i hc := by
    rw [h.cpu] at hc
    exact ⟨(hk.running c i hc).1, h.running i (hk.running c i hc).2⟩
  exclusive c c' i hc hc' := by
    rw [h.cpu] at hc hc'
    exact hk.exclusive c c' i hc hc'

/-! ## Leaving the CPU -/

/-- Process `i` gives up CPU `c`, which switches to the kernel's page table. -/
structure Leaves (c i : Nat) (k k' : Kernel) : Prop extends Calm k k' where
  running : ∀ j, j ≠ i → (k.proc j).state = .running → (k'.proc j).state = .running
  cpu : k'.cpu = update k.cpu c ⟨none, (k.cpu c).flushes + 1⟩

variable {c i page : Nat}

theorem Leaves.after {k1 : Kernel} (h1 : Still k k1) (h2 : Leaves c i k1 k') :
    Leaves c i k k' where
  toCalm := h1.toCalm.trans h2.toCalm
  running j hj h := h2.running j hj (h1.running j h)
  cpu := by rw [h2.cpu, h1.cpu]

theorem Leaves.placed (h : Leaves c i k k') (hc : (k.cpu c).proc = some i)
    (hk : Placed k) : Placed k' := by
  have hcpu : ∀ c' j, (k'.cpu c').proc = some j → c' ≠ c ∧ (k.cpu c').proc = some j := by
    intro c' j hj
    rw [h.cpu] at hj
    by_cases hcc : c' = c
    · subst hcc
      simp at hj
    · rw [update_of_ne hcc] at hj
      exact ⟨hcc, hj⟩
  refine ⟨fun c' j hj => ?_, fun c1 c2 j h1 h2 => ?_⟩
  · obtain ⟨hne, hj'⟩ := hcpu c' j hj
    have hji : j ≠ i := by
      rintro rfl
      exact hne (hk.exclusive c' c j hj' hc)
    exact ⟨(hk.running c' j hj').1, h.running j hji (hk.running c' j hj').2⟩
  · exact hk.exclusive c1 c2 j (hcpu c1 j h1).2 (hcpu c2 j h2).2

variable {context : Context} {u : Unit}

/-- Changing the state of the current process and entering the scheduler. -/
theorem leaves_of_sched {f : Process → Process}
    (hspace : (f (k.proc i)).space = (k.proc i).space) (hsame : SameProc (k.proc i) (f (k.proc i)))
    (h : (modProc i f >>= fun _ => sched c i context) k = .ok (u, k')) :
    Leaves c i k k' := by
  cases h
  have hproc : update (update k.proc i (f (k.proc i))) i
      { update k.proc i (f (k.proc i)) i with context := context } =
      update k.proc i { f (k.proc i) with context := context } := by
    simp
  refine ⟨⟨fun j => ?_, fun j => ?_, rfl, id, Conserves.refl _ _⟩, fun j hj hrun => ?_, ?_⟩
  · dsimp only
    rw [hproc]
    by_cases hj : j = i
    · subst hj
      rw [update_self]
      exact hspace
    · rw [update_of_ne hj]
  · dsimp only
    rw [hproc]
    by_cases hj : j = i
    · subst hj
      rw [update_self]
      exact ⟨hsame.sz, hsame.pid, hsame.embryo⟩
    · rw [update_of_ne hj]
      exact .refl _
  · dsimp only
    rw [hproc, update_of_ne hj]
    exact hrun
  · simp [Kernel.flush]

theorem exit_ok (hp : PipesBelow k)
    (hlive : (k.proc i).state ≠ .unused) (h : exit M c i context k = .ok (u, k')) :
    Leaves c i k k' := by
  unfold exit at h
  rw [bind_of_ok (get_apply k)] at h
  split_ifs at h
  · cases h
  · obtain ⟨_, k1, hclose, h1⟩ := bind_eq_ok.mp h
    rw [getProc_bind] at h1
    obtain ⟨_, k1', hput, h1'⟩ := bind_eq_ok.mp h1
    obtain ⟨_, k2, hcwd, h2⟩ := bind_eq_ok.mp h1'
    rw [getProc_bind] at h2
    obtain ⟨_, k3, hwake, h3⟩ := bind_eq_ok.mp h2
    rw [bind_of_ok (get_apply k3)] at h3
    obtain ⟨_, k4, hrep, h4⟩ := bind_eq_ok.mp h3
    obtain ⟨_, k5, horphan, h5⟩ := bind_eq_ok.mp h4
    obtain ⟨_, k6, htick, h6⟩ := bind_eq_ok.mp h5
    have hs1 := (Still.closeFiles hp hclose).trans (Still.putCwd hput)
    have hs2 := Still.modProc_fields hcwd fun _ => ⟨rfl, rfl, rfl, rfl, rfl⟩
    have hs3 := Still.wakeup hwake
    have hs4 := Still.reparent hrep
    have hs5 := Still.wakeupInit horphan
    have hs6 := Still.addTick htick
    have hs := ((((hs1.trans hs2).trans hs3).trans hs4).trans hs5).trans hs6
    have hlive6 : (k6.proc i).state ≠ .unused := by
      intro hu
      have := hs.space i
      rw [space_of_unused hu, space_of_used hlive] at this
      cases this
    exact Leaves.after hs (leaves_of_sched (f := fun p => { p with state := .zombie })
      (by rw [space_of_used hlive6, space_of_used (by simp)]) (.of_ne rfl rfl (by simp)) h6)

theorem exitIfKilled_ok {user : Bool} (hp : PipesBelow k) (hlive : (k.proc i).state ≠ .unused)
    (h : exitIfKilled M c i user context k = .ok (u, k')) :
    k' = k ∨ Leaves c i k k' := by
  unfold exitIfKilled at h
  rw [getProc_bind] at h
  split_ifs at h
  · exact .inr (exit_ok hp hlive h)
  · cases h
    exact .inl rfl

/-! ## Changing one address space -/

/-- Only slot `i` changes, and pages move between it and the free list; some may be
lost on the way. -/
structure Moves (i : Nat) (k k' : Kernel) : Prop where
  other : ∀ j, j ≠ i → k'.proc j = k.proc j
  kpgdir : k'.kpgdir = k.kpgdir
  pipe : k'.pipe = k.pipe
  npipe : k'.npipe = k.npipe
  conserves : ∃ lost : Nat → Nat, Conserves k.kmem k'.kmem (spaceOwn (k.proc i).space)
    fun page => spaceOwn (k'.proc i).space page + lost page

namespace Moves

theorem owners_le {i : Nat} (h : Moves i k k') (hi : i < NPROC) (page : Nat) :
    k'.owners page ≤ k.owners page := by
  obtain ⟨lost, hc⟩ := h.conserves
  have hproc := sum_change (f := fun j => spaceOwn (k.proc j).space page)
    (g := fun j => spaceOwn (k'.proc j).space page) (Finset.mem_range.mpr hi)
    fun j _ hj => by rw [h.other j hj]
  have hpipe : k'.pipeOwn page = k.pipeOwn page := by
    simp only [Kernel.pipeOwn, h.pipe, h.npipe]
  have := hc.ledger page
  simp only [Kernel.owners, Kernel.procOwn, h.kpgdir, hpipe] at *
  omega

theorem sound {i : Nat} (h : Moves i k k') (hi : i < NPROC) (hk : Sound M k)
    (hlive : ∀ x, (k'.proc i).space = some x → ∃ page d, x = (some page, some d) ∧ KernelHalf M d)
    (hsz : (k'.proc i).sz < 2 ^ 32) : Sound M k' where
  owners page := (h.owners_le hi page).trans (hk.owners page)
  live j x hx := by
    by_cases hj : j = i
    · subst hj
      exact hlive x hx
    · rw [h.other j hj] at hx
      exact hk.live j x hx
  sz j := by
    by_cases hj : j = i
    · subst hj
      exact hsz
    · rw [h.other j hj]
      exact hk.sz j
  pipes id hid := by
    rw [h.pipe]
    exact hk.pipes id (by rw [← h.npipe]; exact hid)

end Moves

/-- A slot in use has a stack and a page directory. -/
theorem Sound.used (hk : Sound M k) (hi : (k.proc i).state ≠ .unused) :
    ∃ page d, (k.proc i).kstack = some page ∧ (k.proc i).pgdir = some d ∧ KernelHalf M d := by
  obtain ⟨page, d, hx, hd⟩ := hk.live i _ (space_of_used hi)
  obtain ⟨hq, hpd⟩ := Prod.mk.inj hx
  exact ⟨page, d, hq, hpd, hd⟩

variable {s : Kmem}

/-- Replacing the page directory of a process. -/
theorem moves_of_pgdir (p' : Process)
    (cpu : Nat → Cpu) (hstack : (k.proc i).kstack = some page) (hdir : (k.proc i).pgdir = some d)
    (hlive : (k.proc i).state ≠ .unused) (hstack' : p'.kstack = some page)
    (hdir' : p'.pgdir = some d') (hlive' : p'.state ≠ .unused)
    (hc : Conserves k.kmem s d.own d'.own) :
    Moves i k { k with kmem := s, cpu := cpu, proc := update k.proc i p' } := by
  refine ⟨fun j hj => update_of_ne hj _ _, rfl, rfl, rfl, nothing, ?_⟩
  rw [space_of_used hlive, hstack, hdir]
  dsimp only
  rw [update_self, space_of_used hlive', hstack', hdir']
  refine (hc.carry (single page)).congr (fun p => ?_) fun p => ?_
  · simp only [spaceOwn_some]
    omega
  · simp only [spaceOwn_some, nothing]
    omega

/-- The ranges `sys_sbrk` can release without freeing a page the process does not
own: it must not start in the direct mapping of free memory. -/
def SbrkSafe (M : Machine) (p : Process) (n : Int) : Prop :=
  n < 0 → toUint (p.sz + n) < p.sz → ¬ Direct M (toUint (p.sz + n) / PGSIZE)

theorem toUint_lt (x : Int) : toUint x < 2 ^ 32 := by
  unfold toUint
  omega

/-- What `sys_sbrk` did to process `i`. -/
structure Resized (i : Nat) (n : Int) (k k' : Kernel) (d d' : PageDir) : Prop where
  proc : ∃ sz, sz < 2 ^ 32 ∧ k'.proc = update k.proc i
    { k.proc i with pgdir := some d', sz := sz }
  rest : k'.kpgdir = k.kpgdir ∧ k'.pipe = k.pipe ∧ k'.npipe = k.npipe ∧ k'.cpu = k.cpu
  dir : (d' = d ∧ k'.kmem = k.kmem) ∨ (n < 0 ∧ toUint ((k.proc i).sz + n) < (k.proc i).sz ∧
      Released d d' (toUint ((k.proc i).sz + n) / PGSIZE) (k.proc i).sz k.kmem k'.kmem)

variable {r : Int}

theorem sysSbrk_ok {n : Int} (hdir : (k.proc i).pgdir = some d)
    (hd : KernelHalf M d) (hsz : (k.proc i).sz < 2 ^ 32) (hsafe : SbrkSafe M (k.proc i) n)
    (h : sysSbrk M i n k = .ok (r, k')) : ∃ d', Resized i n k k' d d' := by
  unfold sysSbrk at h
  rw [getProc_bind] at h
  dsimp only at h
  split_ifs at h with hneg
  · obtain ⟨d0, k0, hpg, h1⟩ := bind_eq_ok.mp h
    obtain ⟨hd0, rfl⟩ := pgdirOf_ok hpg
    rw [hdir] at hd0
    cases hd0
    obtain ⟨⟨d', r1⟩, k1, hlift, h2⟩ := bind_eq_ok.mp h1
    obtain ⟨s, hdealloc, rfl⟩ := liftVm_ok hlift
    have hrel := deallocuvm_ok hsz (fun hlt => .inr ⟨hd, hsafe hneg hlt⟩) hdealloc
    have hdir' : (d' = d ∧ s = k.kmem) ∨ (n < 0 ∧ toUint ((k.proc i).sz + n) < (k.proc i).sz ∧
          Released d d' (toUint ((k.proc i).sz + n) / PGSIZE) (k.proc i).sz k.kmem s) := by
      rcases hrel with ⟨-, -, rfl, rfl⟩ | ⟨hlt, -, hrel⟩
      · exact .inl ⟨rfl, rfl⟩
      · exact .inr ⟨hneg, hlt, hrel⟩
    obtain ⟨_, k2, hmod, h3⟩ := bind_eq_ok.mp h2
    cases hmod
    split_ifs at h3 with hr
    · cases h3
      exact ⟨d', ⟨(k.proc i).sz, hsz, rfl⟩, ⟨rfl, rfl, rfl, rfl⟩, hdir'⟩
    · obtain ⟨_, k3, hmod2, h4⟩ := bind_eq_ok.mp h3
      cases hmod2
      cases h4
      exact ⟨d', ⟨toUint ((k.proc i).sz + n), toUint_lt _, by simp⟩, ⟨rfl, rfl, rfl, rfl⟩, hdir'⟩
  · obtain ⟨_, k1, hmod, h1⟩ := bind_eq_ok.mp h
    cases hmod
    cases h1
    exact ⟨d, ⟨toUint ((k.proc i).sz + n), toUint_lt _, by rw [← hdir]⟩, ⟨rfl, rfl, rfl, rfl⟩,
      .inl ⟨rfl, rfl⟩⟩

/-- The directory after `sys_sbrk` still maps the kernel, and the pages of the old
directory are those of the new one and the freed ones. -/
theorem Resized.dir_ok {n : Int} (h : Resized i n k k' d d') :
    SameKernel d d' ∧ Conserves k.kmem k'.kmem d.own d'.own := by
  rcases h.dir with ⟨rfl, hmem⟩ | ⟨-, -, hrel⟩
  · rw [hmem]
    exact ⟨SameKernel.refl _, Conserves.refl _ _⟩
  · exact ⟨hrel.sameKernel, hrel.conserves⟩

/-! ## Page faults -/

/-- The conditions under which `trap` refuses to map a page: an address of the
kernel, a process of size zero, or a page that is present. -/
def Refused (p : Process) (d : PageDir) (cr2 : Nat) : Prop :=
  KERNBASE ≤ PGROUNDDOWN cr2 ∨ p.sz = 0 ∨ (d.ent (cr2 / PGSIZE)).present = true

/-- The kernel after a fault that was served, on CPU `c` and with directory `d'`. -/
def served (k : Kernel) (c i : Nat) (d' : PageDir) (s : Kmem) : Kernel :=
  { k with
    kmem := s
    proc := update k.proc i { k.proc i with pgdir := some d' }
    cpu := k.flush c }

/-- The kernel after a fault that could not be served. -/
def unserved (k : Kernel) (i : Nat) (d' : PageDir) (s : Kmem) : Kernel :=
  { k with
    kmem := s
    proc := update k.proc i { k.proc i with pgdir := some d', killed := true } }

theorem page_lt_of_low {cr2 : Nat} (h : PGROUNDDOWN cr2 < KERNBASE) : cr2 / PGSIZE < userPages := by
  simp only [PGROUNDDOWN, PGSIZE, KERNBASE, userPages] at *
  omega

theorem pageFault_ok {cr2 : Nat} (hdir : (k.proc i).pgdir = some d)
    (h : pageFault M c i cr2 k = .ok (u, k')) :
    (Refused (k.proc i) d cr2 ∧ k' = unserved k i d k.kmem) ∨
      (¬ Refused (k.proc i) d cr2 ∧ ∃ d' mapped s,
        faultPage M d (cr2 / PGSIZE * PGSIZE) k.kmem = .ok ((d', mapped), s) ∧
        Faulted d d' (cr2 / PGSIZE) mapped k.kmem s ∧
        k' = if mapped then served k c i d' s else unserved k i d' s) := by
  have hkill : ∀ k1, setKilled i k = .ok (u, k1) → k1 = unserved k i d k.kmem := by
    intro k1 hset
    cases hset
    simp [unserved, ← hdir]
  unfold pageFault at h
  rw [getProc_bind] at h
  split_ifs at h with hlow
  · refine .inl ⟨?_, hkill k' h⟩
    rcases hlow with hva | hsz
    · exact .inl hva
    · exact .inr (.inl hsz)
  · obtain ⟨d0, k0, hpg, h1⟩ := bind_eq_ok.mp h
    obtain ⟨hd0, rfl⟩ := pgdirOf_ok hpg
    rw [hdir] at hd0
    cases hd0
    have hva : PGROUNDDOWN cr2 < KERNBASE := by
      by_contra hge
      exact hlow (.inl (by omega))
    have hv := page_lt_of_low hva
    have hpte : d.pte (PGROUNDDOWN cr2) = d.ent (cr2 / PGSIZE) := by
      rw [PageDir.pte_eq_ent, PGROUNDDOWN, vpn_mul_PGSIZE (by simp only [userPages] at hv; omega)]
    rw [hpte] at h1
    split_ifs at h1 with hp
    · exact .inl ⟨.inr (.inr hp), hkill k' h1⟩
    · refine .inr ⟨?_, ?_⟩
      · rintro (hge | hsz | hpres)
        · omega
        · exact hlow (.inr hsz)
        · exact hp hpres
      · obtain ⟨⟨d', mapped⟩, k1, hlift, h2⟩ := bind_eq_ok.mp h1
        obtain ⟨s, hfault, rfl⟩ := liftVm_ok hlift
        obtain ⟨_, k2, hmod, h3⟩ := bind_eq_ok.mp h2
        cases hmod
        refine ⟨d', mapped, s, hfault, faultPage_ok hv hfault, ?_⟩
        cases mapped with
        | true =>
          cases h3
          rfl
        | false =>
          cases h3
          simp [unserved]

theorem moves_served {v : Nat}
    (hk : Sound M k) (hi : (k.proc i).state ≠ .unused) (hdir : (k.proc i).pgdir = some d)
    (hf : Faulted d d' v true k.kmem s) : Moves i k (served k c i d' s) := by
  obtain ⟨page, d0, hstack, -⟩ := hk.used hi
  exact moves_of_pgdir _ _ hstack hdir hi hstack rfl hi hf.conserves

theorem moves_unserved
    (hk : Sound M k) (hi : (k.proc i).state ≠ .unused) (hdir : (k.proc i).pgdir = some d)
    (hc : Conserves k.kmem s d.own d'.own) : Moves i k (unserved k i d' s) := by
  obtain ⟨page, d0, hstack, -⟩ := hk.used hi
  exact moves_of_pgdir _ k.cpu hstack hdir hi hstack rfl hi hc

/-! ## `wait` -/

/-- The slot after its process was reaped. -/
def reaped (p : Process) : Process :=
  { p with kstack := none, pid := 0, parent := none, name := [], killed := false, state := .unused }

theorem reap_ok {j : Nat} (h : reap M j k = .ok (r, k')) :
    ∃ page d s, (k.proc j).kstack = some page ∧ (k.proc j).pgdir = some d ∧
      Conserves k.kmem s (fun p => single page p + d.own p) nothing ∧
      k' = { k with kmem := s, proc := update k.proc j (reaped (k.proc j)) } := by
  unfold reap at h
  rw [getProc_bind] at h
  cases hstack : (k.proc j).kstack with
  | none =>
    rw [hstack] at h
    cases h
  | some page =>
    cases hdir : (k.proc j).pgdir with
    | none =>
      rw [hstack, hdir] at h
      cases h
    | some d =>
      rw [hstack, hdir] at h
      simp only [bind_eq_ok] at h
      obtain ⟨_, k1, hkf, _, k2, hfv, _, k3, hmod, h1⟩ := h
      obtain ⟨s1, hkf', rfl⟩ := liftVm_ok hkf
      obtain ⟨s2, hfv', rfl⟩ := liftVm_ok hfv
      cases hmod
      cases h1
      refine ⟨page, d, s2, rfl, rfl, ?_, rfl⟩
      exact (((kfree_conserves hkf').carry d.own).congr (fun _ => rfl)
        fun p => by simp [nothing]).trans (freevm_ok hfv')

theorem wait_ok (h : wait M i k = .ok (r, k')) :
    k' = k ∨ ∃ j page d s, j < NPROC ∧ (k.proc j).state = .zombie ∧ (k.proc j).parent = some i ∧
      (k.proc j).kstack = some page ∧ (k.proc j).pgdir = some d ∧
      Conserves k.kmem s (fun p => single page p + d.own p) nothing ∧
      k' = { k with kmem := s, proc := update k.proc j (reaped (k.proc j)) } := by
  unfold wait at h
  rw [bind_of_ok (get_apply k)] at h
  cases hfind : findProc k fun q => q.parent == some i && q.state == .zombie with
  | none =>
    rw [hfind] at h
    dsimp only at h
    split_ifs at h
    · cases h
      exact .inl rfl
    · cases h
  | some j =>
    rw [hfind] at h
    obtain ⟨hj, htest⟩ := findProc_some hfind
    simp only [Bool.and_eq_true, beq_iff_eq] at htest
    obtain ⟨page, d, s, hrest⟩ := reap_ok h
    exact .inr ⟨j, page, d, s, hj, htest.2, htest.1, hrest⟩

theorem moves_reaped {j : Nat}
    (hstate : (k.proc j).state ≠ .unused) (hstack : (k.proc j).kstack = some page)
    (hdir : (k.proc j).pgdir = some d)
    (hc : Conserves k.kmem s (fun p => single page p + d.own p) nothing) :
    Moves j k { k with kmem := s, proc := update k.proc j (reaped (k.proc j)) } := by
  refine ⟨fun i hi => update_of_ne hi _ _, rfl, rfl, rfl, nothing, ?_⟩
  rw [space_of_used hstate, hstack, hdir]
  dsimp only
  rw [update_self, space_of_unused rfl]
  exact hc.congr (fun _ => rfl) fun p => by simp [nothing]

/-! ## `exec` -/

/-- The process after `exec` committed to an image. -/
def execed (p : Process) (last : List UInt8) (im : Image) : Process :=
  { p with name := safestrcpy last, pgdir := some im.pgdir, sz := im.sz,
           tf := { p.tf with eip := im.entry, esp := im.sp } }

theorem switchuvm_ok (h : switchuvm c i k = .ok (u, k')) :
    k' = { k with cpu := k.flush c } := by
  unfold switchuvm at h
  rw [getProc_bind] at h
  cases hstack : (k.proc i).kstack with
  | none =>
    rw [hstack] at h
    cases h
  | some page =>
    cases hdir : (k.proc i).pgdir with
    | none =>
      rw [hstack, hdir] at h
      cases h
    | some d =>
      rw [hstack, hdir] at h
      cases h
      rfl

theorem exec_ok {last : List UInt8} {readi : Nat → Nat → List UInt8}
    {argv : List (List UInt8)} (hdir : (k.proc i).pgdir = some d)
    (h : exec M c i last readi argv k = .ok (r, k')) :
    (∃ s, Conserves k.kmem s nothing nothing ∧ k' = { k with kmem := s }) ∨
      ∃ im s, Conserves k.kmem s d.own im.pgdir.own ∧ KernelHalf M im.pgdir ∧
        im.sz = PGROUNDDOWN 0x3000 ∧ k' = { k with
          kmem := s
          proc := update k.proc i (execed (k.proc i) last im)
          cpu := k.flush c } := by
  unfold exec at h
  obtain ⟨q, k1, hlift, h1⟩ := bind_eq_ok.mp h
  obtain ⟨s, himage, rfl⟩ := liftVm_ok hlift
  rcases execImage_ok himage with ⟨im, rfl, hc, hkh, hsz⟩ | ⟨rfl, hc⟩
  · dsimp only at h1
    rw [getProc_bind] at h1
    simp only [bind_eq_ok] at h1
    obtain ⟨d0, k2, hpg, _, k3, hmod, _, k4, hsw, _, k5, hfv, h2⟩ := h1
    obtain ⟨hd0, rfl⟩ := pgdirOf_ok hpg
    rw [hdir] at hd0
    cases hd0
    cases hmod
    obtain rfl := switchuvm_ok hsw
    obtain ⟨s2, hfv', rfl⟩ := liftVm_ok hfv
    cases h2
    refine .inr ⟨im, s2, ?_, hkh, hsz, rfl⟩
    refine ((hc.carry d.own).congr (fun p => by simp [nothing]) fun _ => rfl).trans ?_
    refine ((freevm_ok hfv').carry im.pgdir.own).congr (fun p => ?_) fun p => by simp [nothing]
    omega
  · cases h1
    exact .inl ⟨s, hc, rfl⟩

/-! ## `fork` -/

/-- The slot chosen by `allocproc`, with its kernel stack. -/
def embryo (p : Process) (pid page : Nat) : Process :=
  { p with state := .embryo, pid := pid, priority := 3, ticks := fun _ => 0,
           waitTicks := fun _ => 0, kstack := some page, context := ⟨0, 0, 0, 0, forkret⟩ }

/-- The slot chosen by `allocproc` when there is no page for the stack. -/
def unallocated (p : Process) (pid : Nat) : Process :=
  { p with state := .unused, pid := pid, priority := 3, ticks := fun _ => 0,
           waitTicks := fun _ => 0, kstack := none }

/-- The next pid. -/
def Kernel.succPid (k : Kernel) : Nat := (k.nextpid + 1) % 2 ^ 32

theorem allocproc_ok {r : Option Nat} (h : allocproc k = .ok (r, k')) :
    (r = none ∧ findProc k (fun p => p.state == .unused) = none ∧ k' = k) ∨
      ∃ n, findProc k (fun p => p.state == .unused) = some n ∧
        ((r = none ∧ kalloc k.kmem = .ok (none, k.kmem) ∧ k' = { k with
            proc := update k.proc n (unallocated (k.proc n) k.nextpid)
            nextpid := k.succPid }) ∨
          ∃ page s, r = some n ∧ kalloc k.kmem = .ok (some page, s) ∧ k' = { k with
            kmem := s
            proc := update k.proc n (embryo (k.proc n) k.nextpid page)
            nextpid := k.succPid }) := by
  unfold allocproc at h
  rw [bind_of_ok (get_apply k)] at h
  cases hfind : findProc k fun p => p.state == .unused with
  | none =>
    rw [hfind] at h
    cases h
    exact .inl ⟨rfl, rfl, rfl⟩
  | some n =>
    rw [hfind] at h
    simp only [bind_eq_ok] at h
    obtain ⟨_, k1, hmod, _, k2, hpid, q, k3, hlift, h1⟩ := h
    cases hmod
    cases hpid
    obtain ⟨s, hk, rfl⟩ := liftVm_ok hlift
    refine .inr ⟨n, rfl, ?_⟩
    cases q with
    | none =>
      simp only [bind_eq_ok] at h1
      obtain ⟨_, k4, hmod2, h2⟩ := h1
      cases hmod2
      cases h2
      obtain rfl := kalloc_none hk
      refine .inl ⟨rfl, hk, ?_⟩
      simp [unallocated, Kernel.succPid]
    | some page =>
      simp only [bind_eq_ok] at h1
      obtain ⟨_, k4, hmod2, h2⟩ := h1
      cases hmod2
      cases h2
      refine .inr ⟨page, s, rfl, hk, ?_⟩
      simp [embryo, Kernel.succPid]

/-- The child's descriptors after the first `m` turns of the loop: the parent's
where the parent has one, otherwise what the slot held. -/
def dupOfile (m : Nat) (cur old : Nat → Option Nat) (fd : Nat) : Option Nat :=
  if fd < m ∧ (cur fd).isSome then cur fd else old fd

theorem dupOfile_zero (cur old : Nat → Option Nat) : dupOfile 0 cur old = old := by
  funext fd
  simp [dupOfile]

theorem dupOfile_succ_none {m : Nat} {cur old : Nat → Option Nat} (h : cur m = none) :
    dupOfile (m + 1) cur old = dupOfile m cur old := by
  funext fd
  by_cases hfd : fd = m
  · subst hfd
    simp [dupOfile, h]
  · have hiff : fd < m + 1 ↔ fd < m := by omega
    simp only [dupOfile, hiff]

theorem dupOfile_succ_some {m f : Nat} {cur old : Nat → Option Nat} (h : cur m = some f) :
    dupOfile (m + 1) cur old = update (dupOfile m cur old) m (some f) := by
  funext fd
  by_cases hfd : fd = m
  · subst hfd
    simp [dupOfile, h]
  · have hiff : fd < m + 1 ↔ fd < m := by omega
    rw [update_of_ne hfd]
    simp only [dupOfile, hiff]

theorem filedup_ok {f : Nat} (h : filedup f k = .ok (u, k')) :
    ∃ ft, k' = { k with ftable := ft } := by
  unfold filedup at h
  rw [getFile_bind] at h
  split_ifs at h
  · cases h
  · cases h
    exact ⟨_, rfl⟩

theorem dupCwd_ok {cwd : Option Nat} (h : dupCwd cwd k = .ok (u, k')) :
    ∃ f, k' = { k with iref := f } := by
  cases cwd with
  | none =>
    cases h
    exact ⟨k.iref, rfl⟩
  | some ip =>
    cases h
    exact ⟨_, rfl⟩

theorem dupFiles_ok {n : Nat} (hni : i ≠ n) (h : dupFiles i n k = .ok (u, k')) :
    ∃ ft, k' = { k with
      ftable := ft
      proc := update k.proc n { k.proc n with
        ofile := dupOfile NOFILE (k.proc i).ofile (k.proc n).ofile } } := by
  unfold dupFiles at h
  generalize NOFILE = m at h ⊢
  -- by induction on the number of descriptors handled
  induction m generalizing k' u with
  | zero =>
    cases h
    refine ⟨k.ftable, ?_⟩
    simp [dupOfile_zero]
  | succ m ih =>
    obtain ⟨a, k1, hfirst, hlast⟩ := bind_eq_ok.mp h
    obtain ⟨ft, rfl⟩ := ih hfirst
    dsimp only at hlast
    rw [getProc_bind] at hlast
    dsimp only at hlast
    rw [update_of_ne hni] at hlast
    cases hof : (k.proc i).ofile m with
    | none =>
      rw [hof] at hlast
      cases hlast
      exact ⟨ft, by rw [dupOfile_succ_none hof]⟩
    | some f =>
      rw [hof] at hlast
      obtain ⟨_, k2, hdup, hmod⟩ := bind_eq_ok.mp hlast
      obtain ⟨ft', rfl⟩ := filedup_ok hdup
      cases hmod
      refine ⟨ft', ?_⟩
      simp [dupOfile_succ_some hof]

/-- The child made by `fork` of process `i` in a slot that held `old`. -/
def childOf (cur old : Process) (i pid page : Nat) (d : PageDir) : Process where
  sz := cur.sz
  pgdir := some d
  kstack := some page
  state := .runnable
  pid := pid
  parent := some i
  tf := { cur.tf with eax := 0 }
  context := ⟨0, 0, 0, 0, forkret⟩
  chan := old.chan
  killed := old.killed
  ofile := dupOfile NOFILE cur.ofile old.ofile
  cwd := cur.cwd
  name := safestrcpy cur.name
  scheduler := old.scheduler
  checkThread := old.checkThread
  priority := 3
  ticks := fun _ => 0
  waitTicks := fun _ => 0

/-- What a successful `fork` did. -/
structure Forked (M : Machine) (i n : Nat) (k k' : Kernel) (d : PageDir) : Prop where
  slot : findProc k (fun p => p.state == .unused) = some n
  child : ∃ page s child ft, kalloc k.kmem = .ok (some page, s) ∧
    copyuvm M d s = .ok (some child, k'.kmem) ∧ k' = { k with
      kmem := k'.kmem
      proc := update k.proc n (childOf (k.proc i) (k.proc n) i k.nextpid page child)
      nextpid := k.succPid
      ftable := ft
      iref := k'.iref }

/-- What a failed `fork` did: at most one slot's fields changed, which stays UNUSED. -/
def ForkFailed (M : Machine) (d : PageDir) (k k' : Kernel) : Prop :=
  (findProc k (fun p => p.state == .unused) = none ∧ k' = k) ∨
    ∃ n q s, findProc k (fun p => p.state == .unused) = some n ∧
    q.state = .unused ∧ q.pid = k.nextpid ∧ q.sz = (k.proc n).sz ∧ q.chan = (k.proc n).chan ∧
    q.ofile = (k.proc n).ofile ∧
    (s = k.kmem ∧ kalloc k.kmem = .ok (none, k.kmem) ∨ ∃ page s1 s2 u, kalloc k.kmem = .ok (some page, s1) ∧
      copyuvm M d s1 = .ok (none, s2) ∧ kfree M page s2 = .ok (u, s)) ∧
    k' = { k with kmem := s, proc := update k.proc n q, nextpid := k.succPid }

theorem fork_ok (hi : (k.proc i).state ≠ .unused)
    (hdir : (k.proc i).pgdir = some d) (h : fork M i k = .ok (r, k')) :
    (r = -1 ∧ ForkFailed M d k k') ∨ ∃ n, r = k.nextpid ∧ Forked M i n k k' d := by
  unfold fork at h
  obtain ⟨q, k1, halloc, h1⟩ := bind_eq_ok.mp h
  rcases allocproc_ok halloc with
    ⟨rfl, hnone, rfl⟩ | ⟨n, hn, ⟨rfl, hfull, rfl⟩ | ⟨page, s, rfl, hk, rfl⟩⟩
  · cases h1
    exact .inl ⟨rfl, .inl ⟨hnone, rfl⟩⟩
  · cases h1
    exact .inl ⟨rfl, .inr ⟨n, unallocated (k.proc n) k.nextpid, k.kmem, hn, rfl, rfl, rfl, rfl, rfl,
      .inl ⟨rfl, hfull⟩, rfl⟩⟩
  · have hni : i ≠ n := by
      rintro rfl
      have := (findProc_some hn).2
      simp only [beq_iff_eq] at this
      exact hi this
    dsimp only at h1
    rw [getProc_bind] at h1
    dsimp only at h1
    rw [update_of_ne hni] at h1
    obtain ⟨d0, k2, hpg, h2⟩ := bind_eq_ok.mp h1
    obtain ⟨hd0, rfl⟩ := pgdirOf_ok hpg
    rw [hdir] at hd0
    cases hd0
    obtain ⟨q, k3, hlift, h3⟩ := bind_eq_ok.mp h2
    obtain ⟨s2, hcopy, rfl⟩ := liftVm_ok hlift
    cases q with
    | none =>
      dsimp only at h3
      rw [getProc_bind] at h3
      simp only [update_self, embryo, bind_eq_ok] at h3
      obtain ⟨u, k4, hkf, _, k5, hmod, h4⟩ := h3
      obtain ⟨s3, hkf', rfl⟩ := liftVm_ok hkf
      cases hmod
      cases h4
      refine .inl ⟨rfl, .inr ⟨n, { embryo (k.proc n) k.nextpid page with
        pgdir := none, kstack := none, state := .unused }, s3, hn, rfl, rfl, rfl, rfl, rfl,
        .inr ⟨page, s, s2, u, hk, hcopy, hkf'⟩, ?_⟩⟩
      simp [embryo]
    | some child =>
      simp only [bind_eq_ok] at h3
      obtain ⟨_, k4, hmod, _, k5, hdup, _, k5', hcwd, _, k6, hmod2, np, k7, hget, h4⟩ := h3
      cases hmod
      obtain ⟨ft, rfl⟩ := dupFiles_ok hni hdup
      obtain ⟨iref, rfl⟩ := dupCwd_ok hcwd
      cases hmod2
      cases hget
      cases h4
      refine .inr ⟨n, ?_, hn, page, s, child, ft, hk, hcopy, ?_⟩
      · simp [embryo]
      · simp [embryo, childOf, update_of_ne hni, Kernel.succPid]

/-- The pages of a process that is not being copied stay where they are while its
address space is copied. -/
theorem copyuvm_sound {s' : Kmem} {r : Option PageDir}
    (hk : Sound M k) (hi : i < NPROC) (hlive : (k.proc i).state ≠ .unused)
    (hdir : (k.proc i).pgdir = some d) (halloc : kalloc k.kmem = .ok (some page, s))
    (h : copyuvm M d s = .ok (r, s')) :
    (∃ child, r = some child ∧ Copied M d child s s') ∨
      (r = none ∧ ∃ lost, Conserves s s' nothing lost) := by
  have hle : ∀ p, s.free p ≤ k.kmem.free p := by
    intro p
    have := (kalloc_some halloc).1.ledger p
    simp only [nothing] at this
    omega
  refine copyuvm_ok (fun p => (hle p).trans (hk.free_le_one p)) (fun u hu hp => ?_) h
  have := hk.free_eq_zero hi (spaceOwn_pos hlive hdir hu hp)
  have := hle (d.ent u).ppn
  omega

theorem Forked.moves {n : Nat} (h : Forked M i n k k' d) (hk : Sound M k)
    (hi : i < NPROC) (hlive : (k.proc i).state ≠ .unused) (hdir : (k.proc i).pgdir = some d) :
    Moves n k k' ∧ ∃ page child, (k'.proc n).space = some (some page, some child) ∧
      KernelHalf M child := by
  obtain ⟨page, s, child, ft, halloc, hcopy, hk'⟩ := h.child
  have hunused : (k.proc n).state = .unused := by
    simpa using (findProc_some h.slot).2
  rcases copyuvm_sound hk hi hlive hdir halloc hcopy with ⟨c, hc, hcopied⟩ | ⟨hnone, -⟩
  · cases hc
    have hspace : (k'.proc n).space = some (some page, some child) := by
      rw [hk']
      simp [Process.space, childOf]
    refine ⟨⟨fun j hj => ?_, by rw [hk'], by rw [hk'], by rw [hk'], nothing, ?_⟩, page, child,
      hspace, hcopied.kernelHalf⟩
    · rw [hk']
      exact update_of_ne hj _ _
    · rw [space_of_unused hunused, hspace]
      refine ((kalloc_some halloc).1.trans ((hcopied.conserves.carry (single page)).congr
        (fun p => by simp [nothing]) fun _ => rfl)).congr (fun _ => rfl) fun p => ?_
      simp only [spaceOwn_some, nothing]
      omega
  · cases hnone

/-- A failed `fork` moves pages at most to nowhere. -/
theorem ForkFailed.moves (h : ForkFailed M d k k') (hk : Sound M k)
    (hi : i < NPROC) (hlive : (k.proc i).state ≠ .unused) (hdir : (k.proc i).pgdir = some d) :
    k' = k ∨ ∃ n, n < NPROC ∧ (k.proc n).state = .unused ∧ (k'.proc n).state = .unused ∧
      (k'.proc n).sz = (k.proc n).sz ∧ Moves n k k' ∧ k'.cpu = k.cpu := by
  rcases h with ⟨-, rfl⟩ | ⟨n, q, s, hn, hq, -, hsz, -, -, hmem, rfl⟩
  · exact .inl rfl
  · have hunused : (k.proc n).state = .unused := by
      simpa using (findProc_some hn).2
    refine .inr ⟨n, (findProc_some hn).1, hunused, by simpa using hq, by simpa using hsz,
      ⟨fun j hj => update_of_ne hj _ _, rfl, rfl, rfl, ?_⟩, rfl⟩
    have hspace : spaceOwn (k.proc n).space = nothing := by
      rw [space_of_unused hunused]
      rfl
    dsimp only
    rw [hspace, update_self, space_of_unused hq]
    rcases hmem with ⟨rfl, -⟩ | ⟨page, s1, s2, u, halloc, hcopy, hkf⟩
    · exact ⟨nothing, (Conserves.refl _ _).congr (fun _ => rfl) fun p => by simp [nothing]⟩
    · rcases copyuvm_sound hk hi hlive hdir halloc hcopy with ⟨c, hc, -⟩ | ⟨-, lost, hlost⟩
      · cases hc
      · refine ⟨lost, (((kalloc_some halloc).1.trans ((hlost.carry (single page)).congr
          (fun p => by simp [nothing]) fun _ => rfl)).trans
            (kfree_conserves_add hkf)).congr (fun _ => rfl) fun p => by simp⟩

end Proc
end Xv6
