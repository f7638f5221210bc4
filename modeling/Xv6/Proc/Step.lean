import Xv6.Proc.Effect

/-!
# What a transition can do

`step_does` says once, for every label, what a transition did to the kernel: it
performed one of the actions listed in `Acts`, possibly followed by changes that
concern no address space and by the `exit` of a killed process.  Everything proved
about whole runs is derived from this list.

The condition `SbrkSafe` excludes the calls of `sbrk` whose released range starts in the
kernel's direct mapping of free memory.
-/

namespace Xv6
namespace Proc

open Lib Lib.Exec Vm Function

variable {M : Machine} {k k' : Kernel} {l : Label}

/-- The process chosen by the scheduler starts running. -/
def entered (k : Kernel) (c i : Nat) : Kernel :=
  { k with
    proc := update k.proc i { k.proc i with state := .running, chan := 0 }
    cpu := update k.cpu c ⟨some i, (k.cpu c).flushes + 1⟩ }

/-- A byte of a page stored by user code. -/
def stored (k : Kernel) (ppn off : Nat) (b : UInt8) : Kernel :=
  { k with
    kmem := { k.kmem with
      mem := update k.kmem.mem ppn (update (k.kmem.mem ppn) off b) } }

/-- The actions of the kernel. -/
inductive Acts (M : Machine) (k : Kernel) : Label → Kernel → Prop
  | still {l : Label} {k' : Kernel} (h : Still k k') : Acts M k l k'
  | store {c i ppn off b} (hc : (k.cpu c).proc = some i) :
      Acts M k (.store c ppn off b) (stored k ppn off b)
  | leaves {l : Label} {c i : Nat} {k' : Kernel} (hc : (k.cpu c).proc = some i)
      (h : Leaves c i k k') : Acts M k l k'
  | enters {c i} (hc : (k.cpu c).proc = none) (hi : i < NPROC)
      (hrun : (k.proc i).state = .runnable) : Acts M k (.dispatch c i) (entered k c i)
  | resized {c n context i d d'} {k' : Kernel} (hc : (k.cpu c).proc = some i)
      (hdir : (k.proc i).pgdir = some d) (h : Resized i n k k' d d') :
      Acts M k (.sbrk c n context) k'
  | served {c cr2 user context i d d' s} (hc : (k.cpu c).proc = some i)
      (hdir : (k.proc i).pgdir = some d) (hlow : cr2 / PGSIZE < userPages)
      (h : Faulted d d' (cr2 / PGSIZE) true k.kmem s) :
      Acts M k (.fault c cr2 user context) (served k c i d' s)
  | unserved {c cr2 user context i d d' s} (hc : (k.cpu c).proc = some i)
      (hdir : (k.proc i).pgdir = some d)
      (h : (d' = d ∧ s = k.kmem) ∨
        (cr2 / PGSIZE < userPages ∧ Faulted d d' (cr2 / PGSIZE) false k.kmem s)) :
      Acts M k (.fault c cr2 user context) (unserved k i d' s)
  | execed {c last readi argv context i d im s} (hc : (k.cpu c).proc = some i)
      (hdir : (k.proc i).pgdir = some d) (hcons : Conserves k.kmem s d.own im.pgdir.own)
      (hkernel : KernelHalf M im.pgdir) (hsz : im.sz = PGROUNDDOWN 0x3000) :
      Acts M k (.exec c last readi argv context) { k with
        kmem := s
        proc := update k.proc i (execed (k.proc i) last im)
        cpu := k.flush c }
  | reaped {c context i j page d s} (hc : (k.cpu c).proc = some i) (hj : j < NPROC)
      (hzombie : (k.proc j).state = .zombie) (hparent : (k.proc j).parent = some i)
      (hstack : (k.proc j).kstack = some page) (hdir : (k.proc j).pgdir = some d)
      (hcons : Conserves k.kmem s (fun p => single page p + d.own p) nothing) :
      Acts M k (.wait c context)
        { k with kmem := s, proc := update k.proc j (reaped (k.proc j)) }
  | forked {c context i n d} {k' : Kernel} (hc : (k.cpu c).proc = some i)
      (hdir : (k.proc i).pgdir = some d) (h : Forked M i n k k' d) :
      Acts M k (.fork c context) k'
  | forkFailed {c context i d} {k' : Kernel} (hc : (k.cpu c).proc = some i)
      (hdir : (k.proc i).pgdir = some d) (h : ForkFailed M d k k') :
      Acts M k (.fork c context) k'

variable {c i : Nat}

/-- A running process is in use. -/
theorem Placed.used (hp : Placed k) (hc : (k.cpu c).proc = some i) :
    i < NPROC ∧ (k.proc i).state ≠ .unused := by
  obtain ⟨hi, hrun⟩ := hp.running c i hc
  refine ⟨hi, ?_⟩
  rw [hrun]
  decide

/-- The current process has a stack and a page directory that maps the kernel. -/
theorem Sound.current (hk : Sound M k) (hp : Placed k) (hc : (k.cpu c).proc = some i) :
    ∃ page d, (k.proc i).kstack = some page ∧ (k.proc i).pgdir = some d ∧ KernelHalf M d :=
  hk.used (hp.used hc).2

/-- Replacing the directory of the current process by one that maps the kernel. -/
theorem Moves.sound_dir (h : Moves i k k') (hi : i < NPROC) (hk : Sound M k)
    (page : Nat) (d' : PageDir) (hstack : (k'.proc i).kstack = some page)
    (hdir : (k'.proc i).pgdir = some d') (hkernel : KernelHalf M d')
    (hsz : (k'.proc i).sz < 2 ^ 32) : Sound M k' := by
  refine h.sound hi hk (fun x hx => ?_) hsz
  by_cases hu : (k'.proc i).state = .unused
  · rw [space_of_unused hu] at hx
    cases hx
  · rw [space_of_used hu, hstack, hdir] at hx
    cases hx
    exact ⟨page, d', rfl, hkernel⟩

theorem calm_entered (hrun : (k.proc i).state = .runnable) :
    Calm k (entered k c i) := by
  refine ⟨fun j => ?_, fun j => ?_, rfl, id, Conserves.refl _ _⟩
  all_goals
    by_cases hj : j = i
    · subst hj
      simp only [entered, update_self]
      first | simp [Process.space, hrun] | exact .of_ne rfl rfl (by simp)
    · simp [entered, update_of_ne hj, SameProc.refl]

theorem Acts.sound (h : Acts M k l k') (hk : Sound M k) (hp : Placed k) : Sound M k' := by
  cases h with
  | still h => exact h.toCalm.sound hk
  | store hc => exact ⟨hk.owners, hk.live, hk.sz, hk.pipes⟩
  | leaves hc h => exact h.toCalm.sound hk
  | enters hc hi hrun => exact (calm_entered hrun).sound hk
  | @resized c n context i d d' _ hc hdir h =>
    obtain ⟨hi, hlive⟩ := hp.used hc
    obtain ⟨page, d0, hstack, hdir0, hkernel⟩ := hk.current hp hc
    rw [hdir] at hdir0
    cases hdir0
    obtain ⟨sz, hsz, hproc⟩ := h.proc
    obtain ⟨hkp, hpipe, hnpipe, hcpu⟩ := h.rest
    obtain ⟨hsame, hcons⟩ := h.dir_ok
    have hmoves : Moves i k k' := by
      have := moves_of_pgdir { k.proc i with pgdir := some d', sz := sz } k'.cpu
        hstack hdir hlive hstack rfl hlive hcons
      exact ⟨by rw [hproc]; exact this.other, hkp, hpipe, hnpipe, by
        rw [hproc]
        exact this.conserves⟩
    exact hmoves.sound_dir hi hk page d' (by rw [hproc]; simpa using hstack) (by rw [hproc]; simp)
      (hsame.kernelHalf hkernel) (by rw [hproc]; simpa using hsz)
  | @served c cr2 user context i d d' s hc hdir hlow h =>
    obtain ⟨hi, hlive⟩ := hp.used hc
    obtain ⟨page, d0, hstack, hdir0, hkernel⟩ := hk.current hp hc
    rw [hdir] at hdir0
    cases hdir0
    refine (moves_served hk hlive hdir h).sound_dir hi hk page d' ?_ ?_
      (h.sameKernel.kernelHalf hkernel) ?_
    · simpa [Proc.served] using hstack
    · simp [Proc.served]
    · simpa [Proc.served] using hk.sz i
  | @unserved c cr2 user context i d d' s hc hdir h =>
    obtain ⟨hi, hlive⟩ := hp.used hc
    obtain ⟨page, d0, hstack, hdir0, hkernel⟩ := hk.current hp hc
    rw [hdir] at hdir0
    cases hdir0
    have hdirs : SameKernel d d' ∧ Conserves k.kmem s d.own d'.own := by
      rcases h with ⟨rfl, rfl⟩ | ⟨-, hf⟩
      · exact ⟨SameKernel.refl _, Conserves.refl _ _⟩
      · exact ⟨hf.sameKernel, hf.conserves⟩
    refine (moves_unserved hk hlive hdir hdirs.2).sound_dir hi hk page d' ?_ ?_
      (hdirs.1.kernelHalf hkernel) ?_
    · simpa [Proc.unserved] using hstack
    · simp [Proc.unserved]
    · simpa [Proc.unserved] using hk.sz i
  | @execed c last readi argv context i d im s hc hdir hcons hkernel hsz =>
    obtain ⟨hi, hlive⟩ := hp.used hc
    obtain ⟨page, d0, hstack, -, -⟩ := hk.current hp hc
    refine (moves_of_pgdir (Proc.execed (k.proc i) last im) _ hstack hdir hlive hstack rfl
      hlive hcons).sound_dir hi hk page im.pgdir ?_ ?_ hkernel ?_
    · simpa [Proc.execed] using hstack
    · simp [Proc.execed]
    · dsimp only
      rw [update_self]
      show im.sz < 2 ^ 32
      rw [hsz]
      decide
  | @reaped c context i j page d s hc hj hzombie hparent hstack hdir hcons =>
    refine (moves_reaped (by rw [hzombie]; decide) hstack hdir hcons).sound hj hk ?_ ?_
    · intro x hx
      simp [Process.space, Proc.reaped] at hx
    · simpa [Proc.reaped] using hk.sz j
  | @forked c context i n d _ hc hdir h =>
    obtain ⟨hi, hlive⟩ := hp.used hc
    obtain ⟨hmoves, page, child, hspace, hkernel⟩ := h.moves hk hi hlive hdir
    refine hmoves.sound (findProc_some h.slot).1 hk ?_ ?_
    · intro x hx
      rw [hspace] at hx
      cases hx
      exact ⟨page, child, rfl, hkernel⟩
    · obtain ⟨pg, s, ch, ft, -, -, hk'⟩ := h.child
      rw [hk']
      simpa [childOf] using hk.sz i
  | @forkFailed c context i d _ hc hdir h =>
    obtain ⟨hi, hlive⟩ := hp.used hc
    rcases h.moves hk hi hlive hdir with rfl | ⟨n, hn, -, hu, hsz, hmoves, -⟩
    · exact hk
    · refine hmoves.sound hn hk ?_ ?_
      · intro x hx
        rw [space_of_unused hu] at hx
        cases hx
      · rw [hsz]
        exact hk.sz n

/-- Changes that neither move a process to another CPU nor stop a running one. -/
theorem Placed.of_same (hp : Placed k) (hcpu : ∀ c, (k'.cpu c).proc = (k.cpu c).proc)
    (hrun : ∀ i, (k.proc i).state = .running → (k'.proc i).state = .running) : Placed k' where
  running c i hc := by
    rw [hcpu] at hc
    exact ⟨(hp.running c i hc).1, hrun i (hp.running c i hc).2⟩
  exclusive c c' i hc hc' := by
    rw [hcpu] at hc hc'
    exact hp.exclusive c c' i hc hc'

/-- Replacing the process in a slot by one that runs if the old one did. -/
theorem Placed.of_update (hp : Placed k) {q : Process} (hproc : k'.proc = update k.proc i q)
    (hcpu : ∀ c, (k'.cpu c).proc = (k.cpu c).proc)
    (hq : (k.proc i).state = .running → q.state = .running) : Placed k' := by
  refine hp.of_same hcpu fun j hj => ?_
  rw [hproc]
  by_cases hji : j = i
  · subst hji
    rw [update_self]
    exact hq hj
  · rw [update_of_ne hji]
    exact hj

theorem flush_proc (k : Kernel) (c c' : Nat) : (k.flush c c').proc = (k.cpu c').proc := by
  by_cases h : c' = c
  · subst h
    simp [Kernel.flush]
  · simp [Kernel.flush, update_of_ne h]

theorem placed_entered (hp : Placed k) (hc : (k.cpu c).proc = none) (hi : i < NPROC)
    (hrun : (k.proc i).state = .runnable) : Placed (entered k c i) := by
  -- a process on another CPU is RUNNING, so it is not the one that enters
  have hcases : ∀ c' j, ((entered k c i).cpu c').proc = some j →
      (c' = c ∧ j = i) ∨ (c' ≠ c ∧ j ≠ i ∧ (k.cpu c').proc = some j) := by
    intro c' j hj
    by_cases hcc : c' = c
    · subst hcc
      simp only [entered, update_self, Option.some.injEq] at hj
      exact .inl ⟨rfl, hj.symm⟩
    · simp only [entered, update_of_ne hcc] at hj
      refine .inr ⟨hcc, ?_, hj⟩
      rintro rfl
      have := (hp.running c' j hj).2
      rw [hrun] at this
      cases this
  refine ⟨fun c' j hj => ?_, fun c1 c2 j h1 h2 => ?_⟩
  · rcases hcases c' j hj with ⟨-, rfl⟩ | ⟨-, hne, hold⟩
    · exact ⟨hi, by simp [entered]⟩
    · have := hp.running c' j hold
      exact ⟨this.1, by simpa [entered, update_of_ne hne] using this.2⟩
  · rcases hcases c1 j h1 with ⟨rfl, rfl⟩ | ⟨-, hne1, hold1⟩
    · rcases hcases c2 j h2 with ⟨rfl, -⟩ | ⟨-, hne2, -⟩
      · rfl
      · exact (hne2 rfl).elim
    · rcases hcases c2 j h2 with ⟨-, rfl⟩ | ⟨-, -, hold2⟩
      · exact (hne1 rfl).elim
      · exact hp.exclusive c1 c2 j hold1 hold2

theorem Acts.placed (h : Acts M k l k') (hp : Placed k) : Placed k' := by
  cases h with
  | still h => exact h.placed hp
  | store hc => exact hp.of_same (fun _ => rfl) fun _ h => h
  | leaves hc h => exact h.placed hc hp
  | enters hc hi hrun => exact placed_entered hp hc hi hrun
  | resized hc hdir h =>
    obtain ⟨sz, -, hproc⟩ := h.proc
    exact hp.of_update hproc (fun c => by rw [h.rest.2.2.2]) id
  | served hc hdir hlow h => exact hp.of_update rfl (flush_proc k _) id
  | unserved hc hdir h => exact hp.of_update rfl (fun _ => rfl) id
  | execed hc hdir hcons hkernel hsz => exact hp.of_update rfl (flush_proc k _) id
  | reaped hc hj hzombie hparent hstack hdir hcons =>
    refine hp.of_update rfl (fun _ => rfl) fun hrun => ?_
    rw [hzombie] at hrun
    cases hrun
  | forked hc hdir h =>
    obtain ⟨page, s, child, ft, -, -, hk'⟩ := h.child
    rw [hk']
    refine hp.of_update rfl (fun _ => rfl) fun hrun => ?_
    have hunused := (findProc_some h.slot).2
    simp [hrun] at hunused
  | forkFailed hc hdir h =>
    rcases h with ⟨-, rfl⟩ | ⟨n, q, s, hn, -, -, -, -, -, -, rfl⟩
    · exact hp
    · refine hp.of_update rfl (fun _ => rfl) fun hrun => ?_
      have hunused := (findProc_some hn).2
      simp [hrun] at hunused

/-! ## Labels -/

/-- What a transition did: an action, then changes that concern no address space,
then possibly the exit of the current process. -/
def Does (M : Machine) (k : Kernel) (l : Label) (k' : Kernel) : Prop :=
  ∃ k1 k2, Acts M k l k1 ∧ Still k1 k2 ∧
    (k' = k2 ∨ ∃ c i, (k2.cpu c).proc = some i ∧ Leaves c i k2 k')

theorem Does.of_acts (h : Acts M k l k') : Does M k l k' :=
  ⟨k', k', h, Still.refl k', .inl rfl⟩

theorem Does.sound (h : Does M k l k') (hk : Sound M k) (hp : Placed k) : Sound M k' := by
  obtain ⟨k1, k2, hacts, hstill, rfl | ⟨c, i, -, hexit⟩⟩ := h
  · exact hstill.toCalm.sound (hacts.sound hk hp)
  · exact hexit.toCalm.sound (hstill.toCalm.sound (hacts.sound hk hp))

theorem Does.placed (h : Does M k l k') (hp : Placed k) : Placed k' := by
  obtain ⟨k1, k2, hacts, hstill, rfl | ⟨c, i, hc, hexit⟩⟩ := h
  · exact hstill.placed (hacts.placed hp)
  · exact hexit.placed hc (hstill.placed (hacts.placed hp))

variable {context : Context} {u : Unit}

/-- The exit of the current process. -/
theorem does_exit (hk : Sound M k) (hp : Placed k)
    (hc : (k.cpu c).proc = some i) (h : exit M c i context k = .ok (u, k')) : Does M k l k' :=
  ⟨k, k, .still (Still.refl k), Still.refl k, .inr ⟨c, i, hc, exit_ok hk.pipes (hp.used hc).2 h⟩⟩

/-- A system call whose body performed an action. -/
theorem syscall_does {call : Nat → KM Int} (hk : Sound M k) (hp : Placed k)
    (hcall : ∀ i r k1, (k.cpu c).proc = some i → call i k = .ok (r, k1) →
      Acts M k l k1 ∧ (k1.cpu c).proc = some i)
    (h : syscall M c context call k = .ok (u, k')) : Does M k l k' := by
  unfold syscall at h
  obtain ⟨i, k0, hmy, h1⟩ := bind_eq_ok.mp h
  obtain ⟨hc, rfl⟩ := myproc_ok hmy
  rw [getProc_bind] at h1
  split_ifs at h1 with hkilled
  · exact does_exit hk hp hc h1
  · obtain ⟨r, k1, hbody, h2⟩ := bind_eq_ok.mp h1
    obtain ⟨_, k2, heax, h3⟩ := bind_eq_ok.mp h2
    obtain ⟨hacts, hc1⟩ := hcall i r k1 hc hbody
    have hstill := Still.modProc_fields heax fun _ => ⟨rfl, rfl, rfl, rfl, rfl⟩
    have hk2 := hstill.toCalm.sound (hacts.sound hk hp)
    have hp2 := hstill.placed (hacts.placed hp)
    have hc2 : (k2.cpu c).proc = some i := by
      rw [hstill.cpu]
      exact hc1
    rw [getProc_bind] at h3
    split_ifs at h3 with hkilled2
    · exact ⟨k1, k2, hacts, hstill, .inr ⟨c, i, hc2, exit_ok hk2.pipes (hp2.used hc2).2 h3⟩⟩
    · cases h3
      exact ⟨k1, k', hacts, hstill, .inl rfl⟩

/-- A system call that leaves every address space alone. -/
theorem syscall_still {call : Nat → KM Int} (hk : Sound M k) (hp : Placed k)
    (hcall : ∀ i r k1, call i k = .ok (r, k1) → Still k k1)
    (h : syscall M c context call k = .ok (u, k')) : Does M k l k' := by
  refine syscall_does hk hp (fun i r k1 hc hrun => ?_) h
  have hstill := hcall i r k1 hrun
  exact ⟨.still hstill, by rw [hstill.cpu]; exact hc⟩

theorem fault_does {cr2 : Nat} {user : Bool} (hk : Sound M k)
    (hp : Placed k) (h : trapPgflt M c cr2 user context k = .ok (u, k')) :
    Does M k (.fault c cr2 user context) k' := by
  unfold trapPgflt at h
  rw [bind_of_ok (get_apply k)] at h
  cases hc : (k.cpu c).proc with
  | none =>
    rw [hc] at h
    cases h
    exact Does.of_acts (.still (Still.refl k))
  | some i =>
  rw [hc] at h
  obtain ⟨_, k1, hfault, h2⟩ := bind_eq_ok.mp h
  obtain ⟨page, d, hstack, hdir, hkernel⟩ := hk.current hp hc
  have hacts : Acts M k (.fault c cr2 user context) k1 ∧ (k1.cpu c).proc = some i := by
    rcases pageFault_ok hdir hfault with ⟨-, rfl⟩ | ⟨hnot, d', mapped, s, -, hf, rfl⟩
    · exact ⟨.unserved hc hdir (.inl ⟨rfl, rfl⟩), hc⟩
    · have hlow : cr2 / PGSIZE < userPages := by
        apply page_lt_of_low
        by_contra hge
        exact hnot (.inl (by omega))
      cases mapped with
      | true => exact ⟨.served hc hdir hlow hf, by simpa [Proc.served, flush_proc] using hc⟩
      | false => exact ⟨.unserved hc hdir (.inr ⟨hlow, hf⟩), hc⟩
  have hk1 := hacts.1.sound hk hp
  have hp1 := hacts.1.placed hp
  rcases exitIfKilled_ok hk1.pipes (hp1.used hacts.2).2 h2 with rfl | hexit
  · exact Does.of_acts hacts.1
  · exact ⟨k1, k1, hacts.1, Still.refl k1, .inr ⟨c, i, hacts.2, hexit⟩⟩

theorem fork_does (hk : Sound M k) (hp : Placed k)
    (h : syscall M c context (fun i => fork M i) k = .ok (u, k')) :
    Does M k (.fork c context) k' := by
  refine syscall_does hk hp (fun i r k1 hc hrun => ?_) h
  obtain ⟨page, d, hstack, hdir, hkernel⟩ := hk.current hp hc
  rcases fork_ok (hp.used hc).2 hdir hrun with ⟨-, hfail⟩ | ⟨n, -, hforked⟩
  · refine ⟨.forkFailed hc hdir hfail, ?_⟩
    rcases hfail.moves hk (hp.used hc).1 (hp.used hc).2 hdir with
      rfl | ⟨-, -, -, -, -, -, hcpu⟩
    · exact hc
    · rw [hcpu]
      exact hc
  · refine ⟨.forked hc hdir hforked, ?_⟩
    obtain ⟨pg, s, child, ft, -, -, hk'⟩ := hforked.child
    rw [hk']
    exact hc

theorem exec_does {last : List UInt8} {readi : Nat → Nat → List UInt8}
    {argv : List (List UInt8)} (hk : Sound M k) (hp : Placed k)
    (h : syscall M c context (fun i => exec M c i last readi argv) k = .ok (u, k')) :
    Does M k (.exec c last readi argv context) k' := by
  refine syscall_does hk hp (fun i r k1 hc hrun => ?_) h
  obtain ⟨page, d, hstack, hdir, hkernel⟩ := hk.current hp hc
  rcases exec_ok hdir hrun with ⟨s, hcons, rfl⟩ | ⟨im, s, hcons, hkh, hsz, rfl⟩
  · refine ⟨.still (Still.of_files rfl rfl rfl id ?_), hc⟩
    exact (hcons.carry k.pipeOwn).congr (fun p => by simp [nothing]) fun p => by
      simp [nothing, Kernel.pipeOwn]
  · exact ⟨.execed hc hdir hcons hkh hsz, by simpa [flush_proc] using hc⟩

theorem sbrk_does {n : Int} (hk : Sound M k)
    (hp : Placed k) (hsafe : ∀ i, (k.cpu c).proc = some i → SbrkSafe M (k.proc i) n)
    (h : syscall M c context (fun i => sysSbrk M i n) k = .ok (u, k')) :
    Does M k (.sbrk c n context) k' := by
  refine syscall_does hk hp (fun i r k1 hc hrun => ?_) h
  obtain ⟨page, d, hstack, hdir, hkernel⟩ := hk.current hp hc
  obtain ⟨d', hres⟩ := sysSbrk_ok hdir hkernel (hk.sz i) (hsafe i hc) hrun
  exact ⟨.resized hc hdir hres, by rw [hres.rest.2.2.2]; exact hc⟩

theorem wait_does (hk : Sound M k) (hp : Placed k)
    (h : syscall M c context (fun i => wait M i) k = .ok (u, k')) :
    Does M k (.wait c context) k' := by
  refine syscall_does hk hp (fun i r k1 hc hrun => ?_) h
  rcases wait_ok hrun with
    rfl | ⟨j, page, d, s, hj, hzombie, hparent, hstack, hdir, hcons, rfl⟩
  · exact ⟨.still (Still.refl _), hc⟩
  · exact ⟨.reaped hc hj hzombie hparent hstack hdir hcons, hc⟩

theorem yield_leaves
    (hrun : (k.proc i).state = .running) (h : yield c i context k = .ok (u, k')) :
    Leaves c i k k' := by
  obtain ⟨_, k1, htick, h1⟩ := bind_eq_ok.mp h
  have hstill := Still.addTick htick
  have hrun1 := hstill.running i hrun
  exact Leaves.after hstill (leaves_of_sched (f := fun p => { p with state := .runnable })
    (by simp [Process.space, hrun1]) (.of_ne rfl rfl (by simp)) h1)

theorem sleep_leaves {chan : Nat}
    (hrun : (k.proc i).state = .running) (h : sleep c i chan context k = .ok (u, k')) :
    Leaves c i k k' :=
  leaves_of_sched (f := fun p => { p with chan := chan, state := .sleeping })
    (by simp [Process.space, hrun]) (.of_ne rfl rfl (by simp)) h

theorem timer_does {user : Bool} (hk : Sound M k)
    (hp : Placed k) (h : trapTimer M c user context k = .ok (u, k')) : Does M k l k' := by
  unfold trapTimer at h
  obtain ⟨i, k0, hmy, h1⟩ := bind_eq_ok.mp h
  obtain ⟨hc, rfl⟩ := myproc_ok hmy
  obtain ⟨_, k1, hred, h2⟩ := bind_eq_ok.mp h1
  have hstill := Still.redirect hred
  have hrun := hstill.running i (hp.running c i hc).2
  have hc1 : (k1.cpu c).proc = some i := by
    rw [hstill.cpu]
    exact hc
  rw [getProc_bind] at h2
  split_ifs at h2 with hkilled
  · refine ⟨k1, k1, .still hstill, Still.refl _, .inr ⟨c, i, hc1, ?_⟩⟩
    exact exit_ok (hstill.pipes hk.pipes) (by rw [hrun]; decide) h2
  · exact Does.of_acts (.leaves hc (Leaves.after hstill (yield_leaves hrun h2)))

theorem dispatch_does (h : dispatch c i k = .ok (u, k')) :
    Does M k (.dispatch c i) k' := by
  unfold dispatch at h
  rw [bind_of_ok (get_apply k)] at h
  split_ifs at h with hcond
  · obtain ⟨hc, hi, hrun⟩ := hcond
    obtain ⟨_, k1, hset, h1⟩ := bind_eq_ok.mp h
    obtain ⟨_, k2, hsw, h2⟩ := bind_eq_ok.mp h1
    cases hset
    obtain rfl := switchuvm_ok hsw
    cases h2
    have := Does.of_acts (M := M) (Acts.enters hc hi hrun)
    simpa [entered, Kernel.flush] using this
  · cases h

/-- Everything a transition can do. -/
theorem step_does (hk : Sound M k) (hp : Placed k) (hsafe : ∀ c n context, l = .sbrk c n context →
      ∀ i, (k.cpu c).proc = some i → SbrkSafe M (k.proc i) n)
    (h : step M l k = .ok (u, k')) : Does M k l k' := by
  cases l with
  | userRun c tf =>
    obtain ⟨i, k0, hmy, h1⟩ := bind_eq_ok.mp h
    obtain ⟨-, rfl⟩ := myproc_ok hmy
    exact Does.of_acts (.still (Still.modProc_fields h1 fun _ => ⟨rfl, rfl, rfl, rfl, rfl⟩))
  | store c ppn off b =>
    obtain ⟨i, k0, hmy, h1⟩ := bind_eq_ok.mp h
    obtain ⟨hc, rfl⟩ := myproc_ok hmy
    rw [bind_of_ok (get_apply _)] at h1
    split_ifs at h1
    · cases h1
      exact Does.of_acts (.store hc)
    · cases h1
  | fault c cr2 user context => exact fault_does hk hp h
  | fork c context => exact fork_does hk hp h
  | exec c last readi argv context => exact exec_does hk hp h
  | sbrk c n context => exact sbrk_does hk hp (hsafe c n context rfl) h
  | exit c context =>
    obtain ⟨i, k0, hmy, h1⟩ := bind_eq_ok.mp h
    obtain ⟨hc, rfl⟩ := myproc_ok hmy
    exact does_exit hk hp hc h1
  | wait c context => exact wait_does hk hp h
  | pipe c context => exact syscall_still hk hp (fun i r k1 => Still.sysPipe hk.pipes) h
  | close c fd context => exact syscall_still hk hp (fun i r k1 => Still.sysClose hk.pipes) h
  | dup c fd context => exact syscall_still hk hp (fun i r k1 => Still.sysDup) h
  | openFile c ip readable writable context =>
    exact syscall_still hk hp (fun i r k1 => Still.sysOpen hk.pipes) h
  | kill c pid context => exact syscall_still hk hp (fun i r k1 => Still.kill) h
  | uthreadInit c addr context => exact syscall_still hk hp (fun i r k1 => Still.sysUthreadInit) h
  | checkThread c op context => exact syscall_still hk hp (fun i r k1 => Still.sysCheckThread) h
  | timer c user context => exact timer_does hk hp h
  | yield c context =>
    obtain ⟨i, k0, hmy, h1⟩ := bind_eq_ok.mp h
    obtain ⟨hc, rfl⟩ := myproc_ok hmy
    exact Does.of_acts (.leaves hc (yield_leaves (hp.running c i hc).2 h1))
  | sleep c chan context =>
    obtain ⟨i, k0, hmy, h1⟩ := bind_eq_ok.mp h
    obtain ⟨hc, rfl⟩ := myproc_ok hmy
    exact Does.of_acts (.leaves hc (sleep_leaves (hp.running c i hc).2 h1))
  | wakeup chan => exact Does.of_acts (.still (Still.wakeup h))
  | dispatch c i => exact dispatch_does h
  | account f =>
    cases h
    exact Does.of_acts (.still (Still.of_proc (fun _ => rfl) (fun _ => ⟨rfl, rfl, id⟩) fun _ h => h))

end Proc
end Xv6
