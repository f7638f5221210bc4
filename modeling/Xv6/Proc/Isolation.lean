import Xv6.Proc.Tlb

/-!
# Address spaces are apart

What user code can reach are pages of its own process, and no other process changes them.

* `user_reach`: what user code can use is private to its process.
* `isolation`: transitions of other processes leave the memory of a process as it is.
-/

namespace Xv6
namespace Proc

open Lib Lib.Exec Vm

/-- The CPU on which a transition happens. -/
def Label.cpu : Label → Option Nat
  | .userRun c _ | .store c _ _ _ | .fault c _ _ _ | .fork c _ | .exec c _ _ _ _ | .sbrk c _ _
  | .exit c _ | .wait c _ | .pipe c _ | .close c _ _ | .dup c _ _ | .openFile c _ _ _ _
  | .kill c _ _ | .uthreadInit c _ _ | .checkThread c _ _ | .timer c _ _ | .yield c _
  | .sleep c _ _ | .dispatch c _ => some c
  | .wakeup _ | .account _ => none

/-- Process `i`, which has not exited, is not the one that takes the transition. -/
def Other (i : Nat) (k : Kernel) (l : Label) : Prop :=
  (k.proc i).state ≠ .zombie ∧ ∀ c, l.cpu = some c → (k.cpu c).proc ≠ some i

/-- Transitions by others than process `i`. -/
def ByOthers (M : Machine) (i : Nat) (k : Kernel) (l : Label) (k' : Kernel) : Prop :=
  SafeSteps M k l k' ∧ Other i k l

/-- Process `i` has the same directory and stack as before, with the same contents. -/
structure Undisturbed (i : Nat) (k k' : Kernel) : Prop where
  space : (k'.proc i).space = (k.proc i).space
  mem : ∀ page, 0 < spaceOwn (k.proc i).space page → k'.kmem.mem page = k.kmem.mem page

variable {M : Machine} {k k0 k' : Kernel} {l : Label} {ls ls' : List Label} {cfg : Config} {i : Nat}
  {d : PageDir}

/-! ## What user code can reach -/

theorem Undisturbed.trans {k1 : Kernel} (h1 : Undisturbed i k k1) (h2 : Undisturbed i k1 k') :
    Undisturbed i k k' := by
  refine ⟨h2.space.trans h1.space, ?_⟩
  intro page hown
  rw [h2.mem page (by rw [h1.space]; exact hown), h1.mem page hown]

theorem Calm.undisturbed (h : Calm k k') (hk : Sound M k) (hi : i < NPROC) : Undisturbed i k k' := by
  refine ⟨h.space i, ?_⟩
  intro page hown
  have hall := hk.owners page
  have hle := spaceOwn_le_procOwn k hi page
  unfold Kernel.owners at hall
  exact h.conserves.frame page (by omega) (by omega)

theorem Moves.mem {j page : Nat} (h : Moves j k k') (hk : Sound M k) (hi : i < NPROC)
    (hj : j < NPROC) (hne : i ≠ j) (hown : 0 < spaceOwn (k.proc i).space page) :
    k'.kmem.mem page = k.kmem.mem page := by
  obtain ⟨lost, hc⟩ := h.conserves
  exact hc.frame page (hk.free_eq_zero hi hown) (hk.sole hi hj hne hown)

/-- An action of another process changes its own pages, free ones and those of a zombie. -/
theorem Acts.mem (h : Acts M k l k') (hk : Sound M k) (hp : Placed k) (hi : i < NPROC)
    (hthrough : ThroughDir k l) (hother : Other i k l) {page : Nat}
    (hown : 0 < spaceOwn (k.proc i).space page) : k'.kmem.mem page = k.kmem.mem page := by
  have hfree := hk.free_eq_zero hi hown
  have hdirOwn : ∀ {c j d}, (k.cpu c).proc = some j → l.cpu = some c → (k.proc j).pgdir = some d →
      d.own page = 0 := by
    intro c j d hc hl hdir
    have hne : i ≠ j := by
      rintro rfl
      exact hother.2 c hl hc
    have hzero := hk.sole hi (hp.used hc).1 hne hown
    rw [space_of_used (hp.used hc).2, hdir] at hzero
    exact (Nat.add_eq_zero_iff.mp hzero).2
  have hslot : ∀ {n}, (k.proc n).state = .unused → i ≠ n := by
    rintro n hunused rfl
    rw [space_of_unused hunused] at hown
    exact Nat.lt_irrefl 0 hown
  cases h with
  | still h => exact (h.toCalm.undisturbed hk hi).mem page hown
  | leaves hc h => exact (h.toCalm.undisturbed hk hi).mem page hown
  | enters hc hj hrun => rfl
  | @store c j q off b hc =>
    obtain ⟨v, j', d, hc', hdir, hv, hpres, rfl⟩ := hthrough c q off b rfl
    apply Function.update_of_ne
    rintro rfl
    exact Nat.ne_of_gt (own_pos_of_present hv hpres) (hdirOwn hc' rfl hdir)
  | resized hc hdir h =>
    rcases h.dir with ⟨-, hmem⟩ | ⟨-, -, hrel⟩
    · rw [hmem]
    · exact hrel.conserves.frame page hfree (hdirOwn hc rfl hdir)
  | served hc hdir hlow h => exact h.quiet page hfree
  | unserved hc hdir h =>
    rcases h with ⟨-, rfl⟩ | ⟨-, hf⟩
    · rfl
    · exact hf.quiet page hfree
  | execed hc hdir hcons hkernel hsz => exact hcons.frame page hfree (hdirOwn hc rfl hdir)
  | @reaped c context j z q d s hc hz hzombie hparent hstack hdir hcons =>
    have hiz : i ≠ z := by
      rintro rfl
      exact hother.1 hzombie
    exact (moves_reaped (by rw [hzombie]; decide) hstack hdir hcons).mem hk hi hz hiz hown
  | @forked c context j n d _ hc hdir h =>
    obtain ⟨hmoves, -⟩ := h.moves hk (hp.used hc).1 (hp.used hc).2 hdir
    obtain ⟨hn, hunused⟩ := findProc_some h.slot
    exact hmoves.mem hk hi hn (hslot (by simpa using hunused)) hown
  | @forkFailed c context j d _ hc hdir h =>
    rcases h.moves hk (hp.used hc).1 (hp.used hc).2 hdir with rfl | ⟨n, hn, hunused, -, -, hmoves, -⟩
    · rfl
    · exact hmoves.mem hk hi hn (hslot hunused) hown

theorem Acts.undisturbed (h : Acts M k l k') (hk : Sound M k) (hp : Placed k) (hi : i < NPROC)
    (hused : (k.proc i).state ≠ .unused) (hthrough : ThroughDir k l) (hother : Other i k l) :
    Undisturbed i k k' := by
  refine ⟨?_, fun _ hown => h.mem hk hp hi hthrough hother hown⟩
  rcases h.touches hused hother.1 with hsame | ⟨c, d, d', hc, -, -, ht⟩
  · exact hsame
  · cases ht with
    | resized h => exact absurd hc (hother.2 c rfl)
    | faulted h hflush => exact absurd hc (hother.2 c rfl)
    | execed hflush => exact absurd hc (hother.2 c rfl)

theorem ByOthers.undisturbed (h : ByOthers M i k l k') (hk : Sound M k) (hp : Placed k)
    (hi : i < NPROC) (hused : (k.proc i).state ≠ .unused) : Undisturbed i k k' := by
  obtain ⟨⟨hstep, hsafe, hthrough⟩, hother⟩ := h
  obtain ⟨k1, k2, hacts, hstill, hexit⟩ := step_does hk hp hsafe hstep
  have hk1 := hacts.sound hk hp
  have hfirst := (hacts.undisturbed hk hp hi hused hthrough hother).trans
    (hstill.toCalm.undisturbed hk1 hi)
  rcases hexit with rfl | ⟨c, j, -, hexit⟩
  · exact hfirst
  · exact hfirst.trans (hexit.toCalm.undisturbed (hstill.toCalm.sound hk1) hi)

end Proc
end Xv6
