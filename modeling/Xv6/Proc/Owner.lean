import Xv6.Proc.Model
import Xv6.Vm.User

/-!
# Who owns a page

`Kernel.owners` counts the owners of a physical page: the free list, the kernel
stacks and page directories of the processes, the kernel's own directory, and the
pipes.  An UNUSED slot owns nothing, whatever its fields still say.

A transition changes the ledger in one of two ways.  Either no slot's address
space changes and only pipes come or go (`Still`), or the address space of one
slot changes and pages move between it and the free list (`Moves`).  In both cases
no page gains an owner.
-/

namespace Xv6
namespace Proc

open Lib Lib.Exec Vm Function

/-! ## The ledger -/

/-- The kernel stack and the page directory of a slot that is in use. -/
def Process.space (p : Process) : Option (Option Nat × Option PageDir) :=
  if p.state = .unused then none else some (p.kstack, p.pgdir)

/-- How often `page` is a kernel stack. -/
def stackOwn : Option Nat → Nat → Nat
  | some q, page => single q page
  | none, _ => 0

/-- How often `page` belongs to a page directory. -/
def dirOwn : Option PageDir → Nat → Nat
  | some d, page => d.own page
  | none, _ => 0

/-- How often `page` belongs to a slot. -/
def spaceOwn : Option (Option Nat × Option PageDir) → Nat → Nat
  | some (q, d), page => stackOwn q page + dirOwn d page
  | none, _ => 0

/-- How often `page` is the buffer of a pipe. -/
def pipePage : Option Pipe → Nat → Nat
  | some p, page => single p.page page
  | none, _ => 0

/-- How often `page` belongs to the processes. -/
def Kernel.procOwn (k : Kernel) (page : Nat) : Nat :=
  ∑ i ∈ Finset.range NPROC, spaceOwn (k.proc i).space page

/-- How often `page` belongs to the pipes. -/
def Kernel.pipeOwn (k : Kernel) (page : Nat) : Nat :=
  ∑ id ∈ Finset.range k.npipe, pipePage (k.pipe id) page

/-- The number of owners of a page. -/
def Kernel.owners (k : Kernel) (page : Nat) : Nat :=
  k.kmem.free page + k.kpgdir.own page + k.procOwn page + k.pipeOwn page

@[simp] theorem spaceOwn_none (page : Nat) : spaceOwn none page = 0 := rfl

@[simp] theorem spaceOwn_some (q : Nat) (d : PageDir) (page : Nat) :
    spaceOwn (some (some q, some d)) page = single q page + d.own page := rfl

@[simp] theorem pipePage_none (page : Nat) : pipePage none page = 0 := rfl

@[simp] theorem pipePage_some (p : Pipe) (page : Nat) :
    pipePage (some p) page = single p.page page := rfl

variable {p : Process}

theorem space_of_used (h : p.state ≠ .unused) :
    p.space = some (p.kstack, p.pgdir) := if_neg h

theorem space_of_unused (h : p.state = .unused) : p.space = none := if_pos h

theorem spaceOwn_le_procOwn (k : Kernel) {i : Nat} (hi : i < NPROC) (page : Nat) :
    spaceOwn (k.proc i).space page ≤ k.procOwn page :=
  le_sum_entry (f := fun j => spaceOwn (k.proc j).space page) (Finset.mem_range.mpr hi)

/-! ## Inversion of the kernel's primitives -/

variable {M : Machine} {k k' : Kernel}

variable {α : Type}

theorem liftVm_ok {m : VmM α} {a : α} (h : liftVm m k = .ok (a, k')) :
    ∃ s, m k.kmem = .ok (a, s) ∧ k' = { k with kmem := s } := by
  unfold liftVm at h
  split at h
  · next b s hm =>
      cases h
      exact ⟨s, hm, rfl⟩
  · cases h

theorem liftVm_of_ok {m : VmM α} {a : α} {s : Kmem} (h : m k.kmem = .ok (a, s)) :
    liftVm m k = .ok (a, { k with kmem := s }) := by
  unfold liftVm
  rw [h]

theorem getProc_bind (i : Nat) (f : Process → KM α) (k : Kernel) :
    (getProc i >>= f) k = f (k.proc i) k := rfl

theorem getFile_bind (i : Nat) (f : File → KM α) (k : Kernel) :
    (getFile i >>= f) k = f (k.ftable i) k := rfl

theorem myproc_ok {c i : Nat} (h : myproc c k = .ok (i, k')) :
    (k.cpu c).proc = some i ∧ k = k' := by
  unfold myproc at h
  split at h
  · next j hj =>
      cases h
      exact ⟨hj, rfl⟩
  · cases h

theorem pgdirOf_ok {d : PageDir} (h : pgdirOf p k = .ok (d, k')) :
    p.pgdir = some d ∧ k = k' := by
  unfold pgdirOf at h
  cases hp : p.pgdir with
  | none =>
    rw [hp] at h
    cases h
  | some e =>
    rw [hp] at h
    cases h
    exact ⟨rfl, rfl⟩

theorem findProc_some {test : Process → Bool} {n : Nat} (h : findProc k test = some n) :
    n < NPROC ∧ test (k.proc n) = true := by
  unfold findProc at h
  exact ⟨List.mem_range.mp (List.mem_of_find?_eq_some h),
    List.find?_some (p := fun i => test (k.proc i)) h⟩

/-! ## Transitions that leave every address space alone -/

/-- Pipes are numbered below `npipe`. -/
def PipesBelow (k : Kernel) : Prop := ∀ id, k.npipe ≤ id → k.pipe id = none

/-- A process keeps its size and its pid, and does not become an EMBRYO. -/
structure SameProc (p p' : Process) : Prop where
  sz : p'.sz = p.sz
  pid : p'.pid = p.pid
  embryo : p'.state = .embryo → p.state = .embryo

theorem SameProc.refl (p : Process) : SameProc p p := ⟨rfl, rfl, id⟩

theorem SameProc.of_ne {p' : Process} (hsz : p'.sz = p.sz) (hpid : p'.pid = p.pid)
    (hne : p'.state ≠ .embryo) : SameProc p p' :=
  ⟨hsz, hpid, fun h => absurd h hne⟩

theorem SameProc.trans {p1 p2 : Process} (h1 : SameProc p p1) (h2 : SameProc p1 p2) : SameProc p p2 :=
  ⟨h2.sz.trans h1.sz, h2.pid.trans h1.pid, fun h => h1.embryo (h2.embryo h)⟩

/-- No address space changes; pages move only between the free list and the
pipes. -/
structure Calm (k k' : Kernel) : Prop where
  space : ∀ i, (k'.proc i).space = (k.proc i).space
  same : ∀ i, SameProc (k.proc i) (k'.proc i)
  kpgdir : k'.kpgdir = k.kpgdir
  pipes : PipesBelow k → PipesBelow k'
  conserves : Conserves k.kmem k'.kmem k.pipeOwn k'.pipeOwn

/-- Besides, no process stops running and no CPU switches or flushes. -/
structure Still (k k' : Kernel) : Prop extends Calm k k' where
  running : ∀ i, (k.proc i).state = .running → (k'.proc i).state = .running
  cpu : k'.cpu = k.cpu

theorem Calm.refl (k : Kernel) : Calm k k :=
  ⟨fun _ => rfl, fun _ => .refl _, rfl, id, Conserves.refl _ _⟩

theorem Calm.trans {k1 k2 k3 : Kernel} (h1 : Calm k1 k2) (h2 : Calm k2 k3) : Calm k1 k3 where
  space i := (h2.space i).trans (h1.space i)
  same i := (h1.same i).trans (h2.same i)
  kpgdir := h2.kpgdir.trans h1.kpgdir
  pipes h := h2.pipes (h1.pipes h)
  conserves := h1.conserves.trans h2.conserves

namespace Still

theorem refl (k : Kernel) : Still k k := ⟨Calm.refl k, fun _ h => h, rfl⟩

theorem trans {k1 k2 k3 : Kernel} (h1 : Still k1 k2) (h2 : Still k2 k3) : Still k1 k3 where
  toCalm := h1.toCalm.trans h2.toCalm
  running i h := h2.running i (h1.running i h)
  cpu := h2.cpu.trans h1.cpu

/-- Only files, pipes and memory change. -/
theorem of_files (hproc : k'.proc = k.proc) (hcpu : k'.cpu = k.cpu)
    (hkpgdir : k'.kpgdir = k.kpgdir) (hpipes : PipesBelow k → PipesBelow k')
    (hc : Conserves k.kmem k'.kmem k.pipeOwn k'.pipeOwn) : Still k k' :=
  ⟨⟨fun _ => by rw [hproc], fun _ => by rw [hproc]; exact .refl _, hkpgdir, hpipes, hc⟩,
    fun _ h => by rw [hproc]; exact h, hcpu⟩

/-- Changing fields of processes that concern neither their memory nor whether
they run. -/
theorem of_proc {f : Nat → Process} (hspace : ∀ i, (f i).space = (k.proc i).space)
    (hsame : ∀ i, SameProc (k.proc i) (f i))
    (hrun : ∀ i, (k.proc i).state = .running → (f i).state = .running) :
    Still k { k with proc := f } :=
  ⟨⟨hspace, hsame, rfl, id, Conserves.refl _ _⟩, hrun, rfl⟩

variable {f i ip : Nat} {u : Unit}

theorem modProc {f : Process → Process}
    (h : modProc i f k = .ok (u, k')) (hspace : (f (k.proc i)).space = (k.proc i).space)
    (hsame : SameProc (k.proc i) (f (k.proc i)))
    (hrun : (k.proc i).state = .running → (f (k.proc i)).state = .running) : Still k k' := by
  cases h
  refine of_proc (fun j => ?_) (fun j => ?_) fun j => ?_
  all_goals
    by_cases hj : j = i
    · subst hj
      simpa using by assumption
    · simp [update_of_ne hj, SameProc.refl]

theorem modFile {g : File → File} (h : modFile f g k = .ok (u, k')) :
    Still k k' := by
  cases h
  exact of_files rfl rfl rfl id (Conserves.refl _ _)

/-- Only references to inodes change. -/
theorem of_iref {f : Nat → Int} : Still k { k with iref := f } :=
  of_files rfl rfl rfl id (Conserves.refl _ _)

theorem idup (h : idup ip k = .ok (u, k')) : Still k k' := by
  cases h
  exact of_iref

theorem iput (h : iput ip k = .ok (u, k')) : Still k k' := by
  cases h
  exact of_iref

theorem putCwd {cwd : Option Nat} (h : putCwd cwd k = .ok (u, k')) : Still k k' := by
  cases cwd with
  | none =>
    cases h
    exact refl k
  | some ip => exact iput h

theorem wakeup {chan : Nat} (h : wakeup chan k = .ok (u, k')) : Still k k' := by
  cases h
  refine of_proc (fun i => ?_) (fun i => ?_) fun i => ?_
  all_goals
    dsimp only
    split
    · next hs => first | simp [Process.space, hs.1] | exact .of_ne rfl rfl (by simp)
    · first | rfl | exact .refl _ | exact id

/-- Changing the entry of one pipe changes the pipes' ledger by that entry. -/
theorem pipeOwn_update (k : Kernel) {id : Nat} (hid : id < k.npipe) (x : Option Pipe) (page : Nat) :
    Kernel.pipeOwn { k with pipe := update k.pipe id x } page +
      pipePage (k.pipe id) page = k.pipeOwn page + pipePage x page := by
  have h := sum_change (f := fun j => pipePage (k.pipe j) page)
    (g := fun j => pipePage (update k.pipe id x j) page) (Finset.mem_range.mpr hid)
    fun j _ hj => by rw [update_of_ne hj]
  simpa [Kernel.pipeOwn] using h

theorem pipeclose {id : Nat} {writable : Bool} (hp : PipesBelow k)
    (h : pipeclose M id writable k = .ok (u, k')) : Still k k' := by
  unfold Proc.pipeclose at h
  rw [bind_of_ok (get_apply k)] at h
  cases hpipe : k.pipe id with
  | none =>
    rw [hpipe] at h
    cases h
  | some p =>
    rw [hpipe] at h
    have hid : id < k.npipe := by
      by_contra hge
      rw [hp id (by omega)] at hpipe
      cases hpipe
    obtain ⟨q, hq, hpage⟩ : ∃ q : Pipe, q = (if writable then { p with writeopen := false }
        else { p with readopen := false }) ∧ q.page = p.page :=
      ⟨_, rfl, by split <;> rfl⟩
    dsimp only at h
    rw [← hq] at h
    obtain ⟨_, k1, hwake, h1⟩ := bind_eq_ok.mp h
    have hstill := Still.wakeup hwake
    have hsame : k1.pipe = k.pipe ∧ k1.npipe = k.npipe := by
      cases hwake
      exact ⟨rfl, rfl⟩
    refine hstill.trans ?_
    have hid1 : id < k1.npipe := by
      rw [hsame.2]
      exact hid
    have hupd := fun x page => pipeOwn_update k1 hid1 x page
    rw [hsame.1, hpipe] at hupd
    have hbelow : ∀ x : Option Pipe, PipesBelow k1 →
        PipesBelow { k1 with pipe := update k1.pipe id x } := by
      intro x hb j hj
      have hne : j ≠ id := by
        rintro rfl
        simp only at hj
        omega
      simpa [update_of_ne hne] using hb j hj
    split_ifs at h1 with hboth
    · -- the last end was closed: the page goes back to the free list
      obtain ⟨_, k2, hlift, hmod⟩ := bind_eq_ok.mp h1
      obtain ⟨s, hkf, rfl⟩ := liftVm_ok hlift
      cases hmod
      refine of_files rfl rfl rfl (fun hb => ?_) ?_
      · exact hbelow none hb
      · have hc := kfree_conserves_add (a := Kernel.pipeOwn
          { k1 with pipe := update k.pipe id none }) hkf
        rw [hpage] at hc
        refine hc.congr (fun page => ?_) fun page => ?_
        · have := hupd none page
          simp only [pipePage_some, pipePage_none] at this ⊢
          omega
        · simp [Kernel.pipeOwn, hsame.1]
    · cases h1
      refine of_files rfl rfl rfl (fun hb => ?_) ?_
      · exact hbelow (some q) hb
      · refine (Conserves.refl _ _).congr (fun _ => rfl) fun page => ?_
        have := hupd (some q) page
        simp only [pipePage_some, hpage] at this
        simp only [hsame.1]
        omega

theorem fileclose (hp : PipesBelow k) (h : fileclose M f k = .ok (u, k')) : Still k k' := by
  unfold Proc.fileclose at h
  rw [getFile_bind] at h
  split_ifs at h with href hlast htype hinode
  · cases h
  · exact modFile h
  · obtain ⟨_, k1, hmod, h1⟩ := bind_eq_ok.mp h
    have hstill := modFile hmod
    exact hstill.trans (pipeclose (hstill.pipes hp) h1)
  · obtain ⟨_, k1, hmod, h1⟩ := bind_eq_ok.mp h
    exact (modFile hmod).trans (iput h1)
  · obtain ⟨_, k1, hmod, h1⟩ := bind_eq_ok.mp h
    cases h1
    exact modFile hmod

theorem filealloc {r : Option Nat} (h : filealloc k = .ok (r, k')) : Still k k' := by
  unfold Proc.filealloc at h
  rw [bind_of_ok (get_apply k)] at h
  cases hfind : (List.range NFILE).find? fun f => (k.ftable f).ref == 0 with
  | none =>
    rw [hfind] at h
    cases h
    exact refl k
  | some f =>
    rw [hfind] at h
    obtain ⟨_, k1, hmod, h1⟩ := bind_eq_ok.mp h
    cases h1
    exact modFile hmod

theorem filedup (h : filedup f k = .ok (u, k')) : Still k k' := by
  unfold Proc.filedup at h
  rw [getFile_bind] at h
  split_ifs at h
  · cases h
  · exact modFile h

/-- Changing a process's descriptors, trap frame and the like. -/
theorem modProc_fields {f : Process → Process} (h : Proc.modProc i f k = .ok (u, k'))
    (hf : ∀ p, (f p).state = p.state ∧ (f p).kstack = p.kstack ∧ (f p).pgdir = p.pgdir ∧
      (f p).sz = p.sz ∧ (f p).pid = p.pid) : Still k k' := by
  obtain ⟨hstate, hkstack, hpgdir, hsz, hpid⟩ := hf (k.proc i)
  refine modProc h ?_ ⟨hsz, hpid, ?_⟩ ?_
  · simp [Process.space, hstate, hkstack, hpgdir]
  · simp [hstate]
  · simp [hstate]

theorem fdalloc {r : Option Nat} (h : fdalloc i f k = .ok (r, k')) : Still k k' := by
  unfold Proc.fdalloc at h
  rw [getProc_bind] at h
  cases hfind : (List.range NOFILE).find? fun fd => ((k.proc i).ofile fd).isNone with
  | none =>
    rw [hfind] at h
    cases h
    exact refl k
  | some fd =>
    rw [hfind] at h
    obtain ⟨_, k1, hmod, h1⟩ := bind_eq_ok.mp h
    cases h1
    exact modProc_fields hmod fun _ => ⟨rfl, rfl, rfl, rfl, rfl⟩

/-- A new pipe takes its page from the free list. -/
theorem newPipe {page : Nat} {s : Kmem} (hp : PipesBelow k)
    (hk : kalloc k.kmem = .ok (some page, s)) (x y : Bool) :
    Still k { k with
      kmem := s
      pipe := update k.pipe k.npipe (some ⟨page, x, y⟩)
      npipe := k.npipe + 1 } := by
  refine of_files rfl rfl rfl (fun _ id hid => ?_) ?_
  · have hne : id ≠ k.npipe := by
      rintro rfl
      simp at hid
    simp only at hid
    simpa [update_of_ne hne] using hp id (by omega)
  · refine ((kalloc_some hk).1.carry k.pipeOwn).congr (fun p => by simp [nothing]) fun p => ?_
    simp only [Kernel.pipeOwn, Finset.sum_range_succ, update_self, pipePage_some]
    have hsame : ∑ id ∈ Finset.range k.npipe,
        pipePage (update k.pipe k.npipe (some ⟨page, x, y⟩) id) p =
        ∑ id ∈ Finset.range k.npipe, pipePage (k.pipe id) p := by
      refine Finset.sum_congr rfl fun id hid => ?_
      have := Finset.mem_range.mp hid
      rw [update_of_ne (by omega)]
    omega

theorem pipealloc {r : Option (Nat × Nat)} (hp : PipesBelow k)
    (h : pipealloc M k = .ok (r, k')) : Still k k' := by
  unfold Proc.pipealloc at h
  obtain ⟨f0, k1, hf0, h1⟩ := bind_eq_ok.mp h
  have hs1 := filealloc hf0
  have hp1 := hs1.pipes hp
  cases f0 with
  | none =>
    cases h1
    exact hs1
  | some f0 =>
    obtain ⟨f1, k2, hf1, h2⟩ := bind_eq_ok.mp h1
    have hs2 := hs1.trans (filealloc hf1)
    have hp2 := hs2.pipes hp
    cases f1 with
    | none =>
      obtain ⟨_, k3, hclose, h3⟩ := bind_eq_ok.mp h2
      cases h3
      exact hs2.trans (fileclose hp2 hclose)
    | some f1 =>
      obtain ⟨q, k3, hlift, h3⟩ := bind_eq_ok.mp h2
      obtain ⟨s, hk, rfl⟩ := liftVm_ok hlift
      cases q with
      | none =>
        obtain rfl := kalloc_none hk
        obtain ⟨_, k4, hc0, h4⟩ := bind_eq_ok.mp h3
        obtain ⟨_, k5, hc1, h5⟩ := bind_eq_ok.mp h4
        cases h5
        have hs4 := fileclose hp2 hc0
        exact (hs2.trans hs4).trans (fileclose (hs4.pipes hp2) hc1)
      | some page =>
        dsimp only at h3
        rw [bind_of_ok (get_apply _)] at h3
        obtain ⟨_, k4, hnew, h4⟩ := bind_eq_ok.mp h3
        obtain ⟨_, k5, hm0, h5⟩ := bind_eq_ok.mp h4
        obtain ⟨_, k6, hm1, h6⟩ := bind_eq_ok.mp h5
        cases h6
        cases hnew
        exact ((hs2.trans (newPipe hp2 hk true true)).trans (modFile hm0)).trans (modFile hm1)

variable {r : Int}

theorem sysPipe (hp : PipesBelow k) (h : sysPipe M i k = .ok (r, k')) :
    Still k k' := by
  unfold Proc.sysPipe at h
  obtain ⟨q, k1, hpa, h1⟩ := bind_eq_ok.mp h
  have hs1 := pipealloc hp hpa
  have hp1 := hs1.pipes hp
  cases q with
  | none =>
    cases h1
    exact hs1
  | some fs =>
    obtain ⟨rf, wf⟩ := fs
    obtain ⟨fd0, k2, hfd0, h2⟩ := bind_eq_ok.mp h1
    have hs2 := hs1.trans (fdalloc hfd0)
    have hp2 := hs2.pipes hp
    cases fd0 with
    | none =>
      obtain ⟨_, k3, hc0, h3⟩ := bind_eq_ok.mp h2
      obtain ⟨_, k4, hc1, h4⟩ := bind_eq_ok.mp h3
      cases h4
      have hs3 := fileclose hp2 hc0
      exact (hs2.trans hs3).trans (fileclose (hs3.pipes hp2) hc1)
    | some fd0 =>
      obtain ⟨fd1, k3, hfd1, h3⟩ := bind_eq_ok.mp h2
      have hs3 := hs2.trans (fdalloc hfd1)
      cases fd1 with
      | none =>
        obtain ⟨_, k4, hmod, h4⟩ := bind_eq_ok.mp h3
        obtain ⟨_, k5, hc0, h5⟩ := bind_eq_ok.mp h4
        obtain ⟨_, k6, hc1, h6⟩ := bind_eq_ok.mp h5
        cases h6
        have hs4 := hs3.trans
          (modProc_fields hmod fun _ => ⟨rfl, rfl, rfl, rfl, rfl⟩)
        have hs5 := fileclose (hs4.pipes hp) hc0
        exact (hs4.trans hs5).trans (fileclose (hs5.pipes (hs4.pipes hp)) hc1)
      | some fd1 =>
        cases h3
        exact hs3

theorem sysClose {fd : Nat} (hp : PipesBelow k)
    (h : sysClose M i fd k = .ok (r, k')) : Still k k' := by
  unfold Proc.sysClose at h
  rw [getProc_bind] at h
  split_ifs at h with hfd
  · cases h
    exact refl k
  · cases hof : (k.proc i).ofile fd with
    | none =>
      rw [hof] at h
      cases h
      exact refl k
    | some f =>
      rw [hof] at h
      obtain ⟨_, k1, hmod, h1⟩ := bind_eq_ok.mp h
      obtain ⟨_, k2, hclose, h2⟩ := bind_eq_ok.mp h1
      cases h2
      have hs := modProc_fields hmod fun _ => ⟨rfl, rfl, rfl, rfl, rfl⟩
      exact hs.trans (fileclose (hs.pipes hp) hclose)

theorem sysDup {fd : Nat} (h : sysDup i fd k = .ok (r, k')) : Still k k' := by
  unfold Proc.sysDup at h
  rw [getProc_bind] at h
  split_ifs at h with hfd
  · cases h
    exact refl k
  · cases hof : (k.proc i).ofile fd with
    | none =>
      rw [hof] at h
      cases h
      exact refl k
    | some f =>
      rw [hof] at h
      obtain ⟨q, k1, hfda, h1⟩ := bind_eq_ok.mp h
      cases q with
      | none =>
        cases h1
        exact fdalloc hfda
      | some fd' =>
        obtain ⟨_, k2, hdup, h2⟩ := bind_eq_ok.mp h1
        cases h2
        exact (fdalloc hfda).trans (filedup hdup)

theorem sysOpen {rd wr : Bool} (hp : PipesBelow k)
    (h : sysOpen M i ip rd wr k = .ok (r, k')) : Still k k' := by
  unfold Proc.sysOpen at h
  obtain ⟨_, k0, hdup, h0⟩ := bind_eq_ok.mp h
  obtain ⟨f, k1, hfa, h1⟩ := bind_eq_ok.mp h0
  have hs1 := (idup hdup).trans (filealloc hfa)
  cases f with
  | none =>
    obtain ⟨_, k2, hput, h2⟩ := bind_eq_ok.mp h1
    cases h2
    exact hs1.trans (iput hput)
  | some f =>
    obtain ⟨fd, k2, hfda, h2⟩ := bind_eq_ok.mp h1
    have hs2 := hs1.trans (fdalloc hfda)
    cases fd with
    | none =>
      obtain ⟨_, k3, hclose, h3⟩ := bind_eq_ok.mp h2
      obtain ⟨_, k4, hput, h4⟩ := bind_eq_ok.mp h3
      cases h4
      exact (hs2.trans (fileclose (hs2.pipes hp) hclose)).trans (iput hput)
    | some fd =>
      obtain ⟨_, k3, hmod, h3⟩ := bind_eq_ok.mp h2
      cases h3
      exact hs2.trans (modFile hmod)

theorem kill {pid : Nat} (h : kill pid k = .ok (r, k')) : Still k k' := by
  unfold Proc.kill at h
  rw [bind_of_ok (get_apply k)] at h
  cases hfind : findProc k fun q => q.pid == pid with
  | none =>
    rw [hfind] at h
    cases h
    exact refl k
  | some j =>
    rw [hfind] at h
    obtain ⟨_, k1, hmod, h1⟩ := bind_eq_ok.mp h
    cases h1
    refine modProc hmod ?_ ⟨rfl, rfl, ?_⟩ ?_
    · simp only [Process.space]
      split_ifs <;> simp_all
    · dsimp only
      split_ifs <;> simp_all
    · intro hrun
      simp [hrun]

theorem sysUthreadInit {addr : Nat} (h : sysUthreadInit i addr k = .ok (r, k')) :
    Still k k' := by
  obtain ⟨_, k1, hmod, h1⟩ := bind_eq_ok.mp h
  cases h1
  exact modProc_fields hmod fun _ => ⟨rfl, rfl, rfl, rfl, rfl⟩

theorem sysCheckThread {op : Int} (h : sysCheckThread i op k = .ok (r, k')) :
    Still k k' := by
  obtain ⟨_, k1, hmod, h1⟩ := bind_eq_ok.mp h
  cases h1
  exact modProc_fields hmod fun _ => ⟨rfl, rfl, rfl, rfl, rfl⟩

theorem addTick (h : addTick i k = .ok (u, k')) : Still k k' :=
  modProc_fields h fun _ => ⟨rfl, rfl, rfl, rfl, rfl⟩

theorem closeFiles (hp : PipesBelow k) (h : closeFiles M i k = .ok (u, k')) : Still k k' := by
  unfold Proc.closeFiles at h
  refine (upto_rel (R := fun k k' => PipesBelow k → Still k k') (fun k _ => refl k)
    (fun _ _ _ h1 h2 hp => (h1 hp).trans (h2 ((h1 hp).pipes hp))) ?_ h) hp
  intro fd k0 a k1 _ hround hp0
  rw [getProc_bind] at hround
  cases hof : (k0.proc i).ofile fd with
  | none =>
    rw [hof] at hround
    cases hround
    exact refl k0
  | some f =>
    rw [hof] at hround
    obtain ⟨_, k2, hclose, hmod⟩ := bind_eq_ok.mp hround
    exact (fileclose hp0 hclose).trans
      (modProc_fields hmod fun _ => ⟨rfl, rfl, rfl, rfl, rfl⟩)

theorem reparent (h : reparent i k = .ok (u, k')) : Still k k' := by
  cases h
  refine of_proc (fun j => ?_) (fun j => ?_) fun j => ?_
  all_goals
    dsimp only
    split
    · first | rfl | exact ⟨rfl, rfl, id⟩ | exact id
    · first | rfl | exact .refl _ | exact id

theorem wakeupInit {orphan : Bool} (h : wakeupInit orphan k = .ok (u, k')) :
    Still k k' := by
  unfold Proc.wakeupInit at h
  rw [bind_of_ok (get_apply k)] at h
  split_ifs at h
  · exact wakeup h
  · cases h
    exact refl k

theorem redirect (h : redirect i k = .ok (u, k')) : Still k k' := by
  unfold Proc.redirect at h
  rw [getProc_bind] at h
  split_ifs at h
  · exact modProc_fields h fun _ => ⟨rfl, rfl, rfl, rfl, rfl⟩
  · cases h
    exact refl k

end Still

end Proc
end Xv6
