import Xv6.Proc.Pages

/-!
# Looking up a pid (`proc.c`, `sysproc.c`)

`kill` and `find_proc_by_pid` go through the process table and compare the field `pid`, without
a look at the state of the slot.  A slot that was never used or that `wait` has cleared has pid 0,
and one that a failed `fork` has given back still has the pid it was to get.

* `kill_right_iff` and `printpt_right_iff` say when the slot found is the one that is meant.
* `Tidy` is what a run keeps as long as no `fork` gives a slot back.
* `pid_lookups`: in such a run the lookups are right for every pid but 0.

The argument is given as an unsigned word, as the pids are.
-/

namespace Xv6
namespace Proc

open Lib Lib.Exec Vm Function

/-- `find_proc_by_pid` -/
def findProcByPid (k : Kernel) (pid : Nat) : Option Nat := findProc k fun q => q.pid == pid

/-- A line that `print_user_page_table` prints. -/
structure PtLine where
  vpn : Nat
  user : Bool
  writable : Bool
  ppn : Nat
deriving DecidableEq, Repr

/-- The line for a page, if the page is present. -/
def ptLine (d : PageDir) (v : Nat) : Option PtLine :=
  if (d.ent v).present then
    some ⟨v, (d.ent v).user, (d.ent v).flags &&& PTE_W != 0, (d.ent v).ppn⟩
  else
    none

/-- `print_user_page_table`: the lines.  What is read through a null pointer is not known. -/
def printUserPageTable (p : Process) : Option (List PtLine) :=
  p.pgdir.map fun d => (List.range userPages).filterMap (ptLine d)

/-- `sys_printpt`: the slot whose page directory is walked, with what is printed; `none` for
-1. -/
def sysPrintpt (pid : Nat) : KM (Option (Nat × Option (List PtLine))) := do
  let k ← Exec.get
  match findProcByPid k pid with
  | none => pure none
  | some j => pure (some (j, printUserPageTable (k.proc j)))

/-- The process has an address space that is complete. -/
def Process.Complete (p : Process) : Prop := p.state ≠ .unused ∧ p.state ≠ .embryo

instance (p : Process) : Decidable p.Complete := inferInstanceAs (Decidable (_ ∧ _))

/-- What `kill` is for: it returns 0 if there is a process with the pid, and changes no other
slot. -/
def KillRight (k : Kernel) (pid : Nat) : Prop :=
  ∃ r k', kill pid k = .ok (r, k') ∧
    (r = 0 ↔ ∃ j, j < NPROC ∧ (k.proc j).pid = pid ∧ (k.proc j).state ≠ .unused) ∧
    k' = { k with proc := k'.proc } ∧
    ∀ j, k'.proc j ≠ k.proc j → (k.proc j).pid = pid ∧ (k.proc j).state ≠ .unused

/-- What `sys_printpt` is for: it walks the page directory of a process with the pid, and
returns -1 if there is none. -/
def PrintptRight (k : Kernel) (pid : Nat) : Prop :=
  (∃ j lines, j < NPROC ∧ (k.proc j).pid = pid ∧ (k.proc j).Complete ∧
    sysPrintpt pid k = .ok (some (j, lines), k)) ∨
  (∀ j, j < NPROC → (k.proc j).pid = pid → ¬(k.proc j).Complete) ∧ sysPrintpt pid k = .ok (none, k)

variable {k : Kernel} {pid j : Nat}

theorem findProc_none {test : Process → Bool} (h : findProc k test = none) {i : Nat}
    (hi : i < NPROC) : test (k.proc i) = false := by
  have hall := List.find?_eq_none.mp h i (List.mem_range.mpr hi)
  simpa using hall

theorem findProcByPid_some (h : findProcByPid k pid = some j) : j < NPROC ∧ (k.proc j).pid = pid := by
  obtain ⟨hj, hpid⟩ := findProc_some h
  exact ⟨hj, by simpa using hpid⟩

theorem findProcByPid_none (h : findProcByPid k pid = none) {i : Nat} (hi : i < NPROC) :
    (k.proc i).pid ≠ pid := by
  simpa using findProc_none h hi

/-- The process after `kill`. -/
def killedProcess (p : Process) : Process :=
  { p with killed := true, state := if p.state = .sleeping then .runnable else p.state }

theorem kill_none (h : findProcByPid k pid = none) : kill pid k = .ok (-1, k) := by
  unfold findProcByPid at h
  rw [kill, bind_of_ok (get_apply k), h]
  rfl

theorem kill_some (h : findProcByPid k pid = some j) : kill pid k =
    .ok (0, { k with proc := update k.proc j (killedProcess (k.proc j)) }) := by
  unfold findProcByPid at h
  rw [kill, bind_of_ok (get_apply k), h]
  rfl

/-- Killing an UNUSED slot is seen in its flag. -/
theorem killedProcess_eq_iff {p : Process} (hp : p.state = .unused) :
    killedProcess p = p ↔ p.killed = true := by
  unfold killedProcess
  constructor
  · intro h
    exact (congrArg Process.killed h).symm
  · intro h
    rw [hp, if_neg (by decide), ← h, ← hp]

/-- `kill` does what it is for exactly if the first slot with the pid is in use, or else is
marked as killed already and shares its pid with a process. -/
theorem kill_right_iff : KillRight k pid ↔ ∀ j, findProcByPid k pid = some j →
    (k.proc j).state ≠ .unused ∨ ((k.proc j).killed = true ∧
      ∃ i, i < NPROC ∧ (k.proc i).pid = pid ∧ (k.proc i).state ≠ .unused) := by
  unfold KillRight
  cases hfind : findProcByPid k pid with
  | none =>
    rw [kill_none hfind]
    refine iff_of_true ⟨-1, k, rfl, ?_, rfl, fun j hj => absurd rfl hj⟩ nofun
    refine iff_of_false (by decide) ?_
    rintro ⟨j, hj, hpid, -⟩
    exact findProcByPid_none hfind hj hpid
  | some j =>
    obtain ⟨hj, hpid⟩ := findProcByPid_some hfind
    rw [kill_some hfind]
    constructor
    · rintro ⟨r, k', heq, hr, -, hchange⟩ j' hj'
      cases hj'
      cases heq
      by_cases hstate : (k.proc j).state = .unused
      · refine .inr ⟨?_, hr.mp rfl⟩
        by_contra hkilled
        apply (hchange j _).2 hstate
        intro hsame
        apply hkilled
        rw [← killedProcess_eq_iff hstate]
        exact (update_self ..).symm.trans hsame
      · exact .inl hstate
    · intro h
      refine ⟨0, _, rfl, iff_of_true rfl ?_, rfl, ?_⟩
      · rcases h j rfl with hstate | ⟨-, hother⟩
        · exact ⟨j, hj, hpid, hstate⟩
        · exact hother
      · intro i hne
        have hij : i = j := by
          by_contra hij
          exact hne (update_of_ne hij _ _)
        subst hij
        refine ⟨hpid, ?_⟩
        rcases h i rfl with hstate | ⟨hkilled, -⟩
        · exact hstate
        · intro hstate
          apply hne
          exact (update_self ..).trans ((killedProcess_eq_iff hstate).mpr hkilled)

/-- `sys_printpt` does what it is for exactly if the first slot with the pid has a complete
process. -/
theorem printpt_right_iff : PrintptRight k pid ↔
    ∀ j, findProcByPid k pid = some j → (k.proc j).Complete := by
  unfold PrintptRight sysPrintpt
  rw [bind_of_ok (get_apply k)]
  cases hfind : findProcByPid k pid with
  | none =>
    refine iff_of_true (.inr ⟨?_, rfl⟩) nofun
    intro j hj hpid
    exact absurd hpid (findProcByPid_none hfind hj)
  | some j =>
    obtain ⟨hj, hpid⟩ := findProcByPid_some hfind
    constructor
    · rintro (⟨j', lines, -, -, hcomplete, heq⟩ | ⟨-, heq⟩) j'' hj''
      · cases hj''
        cases heq
        exact hcomplete
      · cases heq
    · intro h
      exact .inl ⟨j, _, hj, hpid, h j rfl, rfl⟩

/-! ### Runs in which no `fork` gives a slot back -/

/-- Free slots have pid 0, and no process is left half made. -/
structure Tidy (k : Kernel) : Prop where
  free : ∀ i, (k.proc i).state = .unused → (k.proc i).pid = 0
  whole : ∀ i, (k.proc i).state ≠ .embryo

/-- A `fork` that finds a slot finds the memory for the child. -/
def ForkFits (M : Machine) (k : Kernel) (l : Label) : Prop :=
  ∀ c context i d n, l = .fork c context → (k.cpu c).proc = some i → (k.proc i).pgdir = some d →
    findProc k (fun p => p.state == .unused) = some n →
    ∃ page s child t, kalloc k.kmem = .ok (some page, s) ∧ copyuvm M d s = .ok (some child, t)

/-- Transitions in which no slot is given back. -/
def PidSteps (M : Machine) (k : Kernel) (l : Label) (k' : Kernel) : Prop :=
  SafeSteps M k l k' ∧ ForkFits M k l

variable {M : Machine} {k' : Kernel} {l : Label}

/-- One slot gets another content. -/
theorem Tidy.update {i : Nat} {q : Process} (h : Tidy k) (hproc : k'.proc = update k.proc i q)
    (hfree : q.state = .unused → q.pid = 0) (hwhole : q.state ≠ .embryo) : Tidy k' := by
  constructor
  all_goals
    intro j
    rw [hproc]
    by_cases hj : j = i
    · rw [hj, update_self]
      assumption
    · rw [update_of_ne hj]
      first | exact h.free j | exact h.whole j

theorem Calm.tidy (h : Calm k k') (hk : Tidy k) : Tidy k' := by
  constructor
  · intro i hunused
    have hspace := h.space i
    rw [space_of_unused hunused] at hspace
    rw [(h.same i).pid]
    by_cases hused : (k.proc i).state = .unused
    · exact hk.free i hused
    · rw [space_of_used hused] at hspace
      cases hspace
  · exact fun i hembryo => hk.whole i ((h.same i).embryo hembryo)

theorem Acts.tidy (h : Acts M k l k') (hk : Tidy k) (hfits : ForkFits M k l) : Tidy k' := by
  cases h with
  | still h => exact h.toCalm.tidy hk
  | store hc => exact ⟨hk.free, hk.whole⟩
  | leaves hc h => exact h.toCalm.tidy hk
  | enters hc hi hrun => exact (calm_entered hrun).tidy hk
  | resized hc hdir h =>
    obtain ⟨sz, -, hproc⟩ := h.proc
    exact hk.update hproc (hk.free _) (hk.whole _)
  | served hc hdir hlow h => exact hk.update rfl (hk.free _) (hk.whole _)
  | unserved hc hdir h => exact hk.update rfl (hk.free _) (hk.whole _)
  | execed hc hdir hcons hkernel hsz => exact hk.update rfl (hk.free _) (hk.whole _)
  | reaped hc hj hzombie hparent hstack hdir hcons =>
    exact hk.update rfl (fun _ => rfl) (by simp [Proc.reaped])
  | forked hc hdir h =>
    obtain ⟨page, s, child, ft, -, -, hk'⟩ := h.child
    exact hk.update (congrArg Kernel.proc hk') (by simp [childOf]) (by simp [childOf])
  | @forkFailed c context i d _ hc hdir h =>
    rcases h with ⟨-, rfl⟩ | ⟨n, q, s, hn, -, -, -, -, -, hmem, -⟩
    · exact hk
    · -- there was a slot, so there was memory for the child
      obtain ⟨page, s1, child, t, hstack, hcopy⟩ := hfits c context i d n rfl hc hdir hn
      rcases hmem with ⟨-, hnone⟩ | ⟨page', s1', s2, u, hstack', hnone, -⟩
      · rw [hstack] at hnone
        cases hnone
      · rw [hstack] at hstack'
        cases hstack'
        rw [hcopy] at hnone
        cases hnone

theorem PidSteps.tidy (h : PidSteps M k l k') (hk : Sound M k ∧ Placed k) (htidy : Tidy k) : Tidy k' := by
  obtain ⟨⟨hstep, hsafe, -⟩, hfits⟩ := h
  obtain ⟨k1, k2, hacts, hstill, rfl | ⟨c, i, -, hexit⟩⟩ := step_does hk.1 hk.2 hsafe hstep
  · exact hstill.toCalm.tidy (hacts.tidy htidy hfits)
  · exact hexit.toCalm.tidy (hstill.toCalm.tidy (hacts.tidy htidy hfits))

theorem boot_tidy {cfg : Config} (h : boot M cfg = .ok k) : Tidy k := by
  obtain ⟨kpgdir, s, n, page, d, lost, hstarted, -⟩ := boot_ok h
  clear h
  obtain ⟨s', hk⟩ := hstarted.kernel
  have hblank : Tidy (blank kpgdir s) := ⟨fun _ _ => rfl, fun _ => by simp [blank, Process.zero]⟩
  exact hblank.update (congrArg Kernel.proc hk) (by simp [started]) (by simp [started])

theorem Tidy.lookups (h : Tidy k) (hpid : pid ≠ 0) : KillRight k pid ∧ PrintptRight k pid := by
  have hused : ∀ j, findProcByPid k pid = some j → (k.proc j).state ≠ .unused := by
    intro j hj hunused
    rw [← (findProcByPid_some hj).2] at hpid
    exact hpid (h.free j hunused)
  exact ⟨kill_right_iff.mpr fun j hj => .inl (hused j hj),
    printpt_right_iff.mpr fun j hj => ⟨hused j hj, h.whole j⟩⟩

/-- While a child is being made, it is found under its pid; it can be killed, but its directory must
not be walked yet. -/
theorem Tidy.lookups_allocproc {n : Nat} (h : Tidy k) (hrun : allocproc k = .ok (some n, k'))
    (hpid : pid ≠ 0) : KillRight k' pid ∧ (pid ≠ k.nextpid → PrintptRight k' pid) := by
  rcases allocproc_ok hrun with ⟨hnone, -⟩ | ⟨m, -, ⟨hnone, -⟩ | ⟨page, s, hn, -, rfl⟩⟩
  · cases hnone
  · cases hnone
  · cases hn
    have hfound : ∀ j, (Function.update k.proc n (embryo (k.proc n) k.nextpid page) j).pid = pid →
        j = n ∧ pid = k.nextpid ∨ j ≠ n ∧ (k.proc j).Complete := by
      intro j hj
      by_cases hjn : j = n
      · rw [hjn, update_self] at hj
        exact .inl ⟨hjn, hj.symm⟩
      · rw [update_of_ne hjn] at hj
        refine .inr ⟨hjn, fun hunused => hpid ?_, h.whole j⟩
        rw [← hj, h.free j hunused]
    constructor
    · refine kill_right_iff.mpr fun j hj => .inl ?_
      rcases hfound j (findProcByPid_some hj).2 with ⟨rfl, -⟩ | ⟨hjn, hcomplete⟩
      · simp [embryo]
      · simpa [update_of_ne hjn] using hcomplete.1
    · intro hnext
      refine printpt_right_iff.mpr fun j hj => ?_
      rcases hfound j (findProcByPid_some hj).2 with ⟨-, heq⟩ | ⟨hjn, hcomplete⟩
      · exact absurd heq hnext
      · simpa [update_of_ne hjn] using hcomplete

/-- In any table the lookups are right for the pids that no free slot answers to, and for no others.
In a run from a machine that has booted, in which no slot is given back by `fork`, these are all pids
but 0, and but that of a child which is being made for `printpt`. -/
theorem pid_lookups (k : Kernel) (pid : Nat) :
    (KillRight k pid ↔ ∀ j, findProcByPid k pid = some j →
      (k.proc j).state ≠ .unused ∨ ((k.proc j).killed = true ∧
        ∃ i, i < NPROC ∧ (k.proc i).pid = pid ∧ (k.proc i).state ≠ .unused)) ∧
    (PrintptRight k pid ↔ ∀ j, findProcByPid k pid = some j → (k.proc j).Complete) ∧
    ∀ M cfg k0 ls, boot M cfg = .ok k0 → Run (PidSteps M) k0 ls k → pid ≠ 0 →
      (KillRight k pid ∧ PrintptRight k pid) ∧
      ∀ n k', allocproc k = .ok (some n, k') →
        KillRight k' pid ∧ (pid ≠ k.nextpid → PrintptRight k' pid) := by
  refine ⟨kill_right_iff, printpt_right_iff, ?_⟩
  intro M cfg k0 ls hboot hrun hpid
  have htidy := hrun.invariant (I := fun k => (Sound M k ∧ Placed k) ∧ Tidy k)
    ⟨boot_sound hboot, boot_tidy hboot⟩
    fun _ _ _ hk hstep => ⟨hstep.1.sound hk.1, hstep.tidy hk.1 hk.2⟩
  exact ⟨htidy.2.lookups hpid, fun n k' hrun => htidy.2.lookups_allocproc hrun hpid⟩

/-- The first process is started and forks a child, which is found under its pid. -/
theorem pid_lookups_fork : ∃ k0 n m context k, boot pc ⟨0, 0, [], fun _ _ => 0⟩ = .ok k0 ∧
    Run (PidSteps pc) k0 [.dispatch 0 n, .fork 0 context] k ∧ m ≠ n ∧ (k.proc m).pid = 2 ∧
    (k.proc m).state = .runnable ∧ KillRight k 2 ∧ PrintptRight k 2 := by
  obtain ⟨k0, n, m, d, d', k, hboot, h⟩ := pc_forks
  have hfits : ForkFits pc (entered k0 0 n) (.fork 0 ⟨0, 0, 0, 0, 0⟩) := by
    rintro _ _ i d1 m1 ⟨⟩ hi hd1 -
    rw [entered_cpu] at hi
    cases hi
    rw [h.pgdir.2] at hd1
    cases hd1
    obtain ⟨page, s, t, halloc, hcopy⟩ := h.memory
    exact ⟨page, s, d', t, halloc, hcopy⟩
  have hrun := (Run.single (R := PidSteps pc) ⟨h.dispatch, by rintro _ _ _ _ _ ⟨⟩⟩).snoc ⟨h.fork, hfits⟩
  obtain ⟨hright, -⟩ := (pid_lookups k 2).2.2 pc _ k0 _ hboot hrun (by decide)
  exact ⟨k0, n, m, _, k, hboot, hrun, h.ne, h.pid, h.child.2, hright⟩

/-- Once the machine has started, pid 0 is that of the slots that were never used: `kill(0)`
kills one of them, and `printpt(0)` walks through its null pointer. -/
theorem pid_zero_found : ∃ k, boot pc ⟨0, 0, [], fun _ _ => 0⟩ = .ok k ∧
    ¬KillRight k 0 ∧ ¬PrintptRight k 0 := by
  obtain ⟨k, hboot, -⟩ := pc_boots
  obtain ⟨kpgdir, s, n, page, d, lost, hstarted, -⟩ := boot_ok hboot
  obtain ⟨s', hk⟩ := hstarted.kernel
  have hn : n = 0 := Option.some.inj hstarted.slot.symm
  subst hn
  have hproc : k.proc = update (fun _ => Process.zero) 0 (started Process.zero 1 page d) := by
    rw [hk]
    rfl
  have hone : k.proc 1 = Process.zero := by
    rw [hproc]
    rfl
  have hfind : findProcByPid k 0 = some 1 := by
    unfold findProcByPid findProc
    rw [hproc]
    rfl
  refine ⟨k, hboot, ?_, ?_⟩
  · rw [kill_right_iff]
    intro h
    rcases h 1 hfind with hstate | ⟨hkilled, -⟩
    · rw [hone] at hstate
      exact hstate rfl
    · rw [hone] at hkilled
      cases hkilled
  · rw [printpt_right_iff]
    intro h
    have hcomplete := (h 1 hfind).1
    rw [hone] at hcomplete
    exact hcomplete rfl

end Proc
end Xv6
