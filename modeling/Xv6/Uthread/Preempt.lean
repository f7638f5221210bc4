import Xv6.Uthread.Threads

/-!
# Preemption by the timer (`trap.c`, `sysproc.c`)

A process that has registered a scheduler and has at least two threads is sent to that scheduler
by every timer interrupt: the kernel overwrites the `eip` of the trap frame.  It does not keep the
old one, and it does not look at where the interrupt came from: during a system call the frame is
that of the call.

The thread that was interrupted then runs `thread_schedule` as if it had called it, but nobody has
pushed a return address.  When the thread is switched to again, the epilogue of
`thread_schedule` therefore takes the word on top of the stack of the thread for one, and the
stack pointer is off by four.
-/

namespace Xv6
namespace Uthread
namespace Preempt

open Function

open Lib X86 Threads

/-- The registers of a trap frame. -/
structure Trapframe where
  reg : Reg → Nat
  eip : Nat

/-- The fields of `struct proc` that the timer uses.  `tf` has the registers of the process
where it was interrupted, or where it made the system call it is in. -/
structure Proc where
  /-- `state == RUNNING`. -/
  running : Bool
  scheduler : Nat
  checkThread : Int
  tf : Trapframe

/-- `sys_uthread_init`. -/
def sysUthreadInit (addr : Nat) (p : Proc) : Proc :=
  { p with scheduler := addr }

/-- `sys_check_thread`. -/
def sysCheckThread (op : Int) (p : Proc) : Proc :=
  { p with checkThread := (p.checkThread + op).bmod (2 ^ 32) }

/-- The branch of `trap` for the timer. -/
def timer (p : Proc) : Proc :=
  if p.running = true ∧ p.scheduler ≠ 0 then
    if 2 ≤ p.checkThread then { p with tf.eip := p.scheduler } else p
  else p

/-- A process that runs, has registered a scheduler and has `check_thread` at least 2. -/
structure Proc.Preemptible (p : Proc) : Prop where
  running : p.running = true
  scheduler : p.scheduler ≠ 0
  threads : 2 ≤ p.checkThread

theorem timer_eip {p : Proc} (h : p.Preemptible) : (timer p).tf = ⟨p.tf.reg, p.scheduler⟩ := by
  unfold timer
  rw [if_pos ⟨h.running, h.scheduler⟩, if_pos h.threads]

/-- A timer interrupt in user mode: the registers go into the trap frame, and come back from
it. -/
def interrupt (p : Proc) (m : Machine) : Machine :=
  let tf := (timer { p with tf := ⟨m.reg, m.eip⟩ }).tf
  ⟨tf.reg, tf.eip, m.mem⟩

theorem interrupt_eq {p : Proc} (h : p.Preemptible) (m : Machine) :
    interrupt p m = ⟨m.reg, p.scheduler, m.mem⟩ := by
  have hp : Proc.Preemptible { p with tf := ⟨m.reg, m.eip⟩ } := ⟨h.running, h.scheduler, h.threads⟩
  simp only [interrupt, timer_eip hp]

/-- How `thread_schedule` begins, with `k` bytes for its variables. -/
def prologue (k : Nat) : List Instr :=
  [.push .ebp, .mov .esp .ebp, .sub k .esp]

/-- How `thread_schedule` ends. -/
def epilogue : List Instr :=
  [.leave, .ret]

/-- From the first instruction of `thread_schedule` to the first of `thread_switch`, but for what
it writes to the threads: it may change its variables and the registers that a function need not
keep, and pushes the address behind the call. -/
structure Enters (k ra : Nat) (m m' : Machine) : Prop where
  reg : ∀ r, r ≠ .eax → r ≠ .ecx → r ≠ .edx → m'.reg r = ((run (prologue k) m).push ra).reg r
  mem : ∀ a, a < (run (prologue k) m).reg .esp ∨ (run (prologue k) m).reg .ebp ≤ a →
    m'.mem a = ((run (prologue k) m).push ra).mem a

/-- The thread that runs in `s` is interrupted by the timer in user mode and sent to
`thread_schedule`.  That switches to another thread; the threads run until one of them switches
back for the first time; and the thread leaves `thread_schedule`. -/
inductive Preempted (g : Image) (p : Proc) (s : State) : Machine → Prop
  | back {k ra : Nat} {ls : List Label} {s1 s2 s3 s4 : State}
      -- the thread is on its stack and has not ended, and there is room for the frames
      (htop : s.m.reg .esp ≤ g.stackHi (g.current s.m.mem))
      (hroom : g.stackLo (g.current s.m.mem) + k + 8 ≤ s.m.reg .esp)
      (hlive : g.state s.m.mem (g.current s.m.mem) ≠ .free)
      (henter : Enters k ra (interrupt p s.m) s1.m)
      (hctx : s1.ctx = s.ctx) (hleaving : s1.leaving = s.leaving)
      (hleave : Steps g s1 .schedule s2)
      (haway : g.current s2.m.mem ≠ g.current s.m.mem)
      (hrun : Run (fun s' l s'' => Steps g s' l s'' ∧ l.Fits g s' ∧
        g.current s''.m.mem ≠ g.current s.m.mem) s2 ls s3)
      (hback : Steps g s3 .schedule s4)
      (hcur : g.current s4.m.mem = g.current s.m.mem) :
      Preempted g p s (run epilogue s4.m)

/-- The thread goes on where it was interrupted, with its registers and its stack. -/
structure Resumes (g : Image) (s : State) (m : Machine) : Prop where
  eip : m.eip = s.m.eip
  reg : m.reg = s.m.reg
  stack : ∀ a, s.m.reg .esp ≤ a → a < g.stackHi (g.current s.m.mem) → m.mem a = s.m.mem a

variable {g : Image} {p : Proc} {s : State} {m m' : Machine} {k ra : Nat}

/-! ## In and out of `thread_schedule` -/

theorem run_prologue (ra : Nat) (h : k + 8 ≤ m.reg .esp) (hlt : m.reg .esp < 2 ^ 32) :
    (run (prologue k) m).reg .esp = m.reg .esp - 4 - k ∧
      (run (prologue k) m).reg .ebp = m.reg .esp - 4 ∧
      (run (prologue k) m).push ra =
        ⟨update (update m.reg .ebp (m.reg .esp - 4)) .esp (m.reg .esp - 8 - k), m.eip,
          update (update m.mem (m.reg .esp - 4) (m.reg .ebp))
            (m.reg .esp - 8 - k) ra⟩ := by
  have hpush : (m.reg .esp + (2 ^ 32 - 4)) % 2 ^ 32 = m.reg .esp - 4 := by omega
  have hsub : (m.reg .esp - 4 + (2 ^ 32 - k)) % 2 ^ 32 = m.reg .esp - 4 - k := by omega
  have hcall : (m.reg .esp - 4 - k + (2 ^ 32 - 4)) % 2 ^ 32 = m.reg .esp - 8 - k := by omega
  simp only [prologue, run_cons, run_nil, exec, Machine.push, Machine.setReg, Machine.store,
    update_self, ne_eq, reduceCtorEq, not_false_eq_true, update_of_ne, hpush,
    hsub, hcall, true_and]
  rw [update_idem, update_comm (show Reg.esp ≠ .ebp by decide), update_idem]

theorem run_epilogue (h : m.reg .ebp + 8 < 2 ^ 32) :
    run epilogue m = ⟨update (update m.reg .ebp (m.mem (m.reg .ebp))) .esp (m.reg .ebp + 8),
        m.mem (m.reg .ebp + 4), m.mem⟩ := by
  have hpop : (m.reg .ebp + 4) % 2 ^ 32 = m.reg .ebp + 4 := by omega
  have hret : (m.reg .ebp + 4 + 4) % 2 ^ 32 = m.reg .ebp + 8 := by omega
  simp only [epilogue, run_cons, run_nil, exec, Machine.pop, Machine.setReg, update_self,
    ne_eq, reduceCtorEq, not_false_eq_true, update_of_ne, hpop, hret]
  rw [update_idem, update_comm (show Reg.esp ≠ .ebp by decide), update_idem]

/-- The thread at the first instruction of `thread_switch`: its frame pointer is just below where
it was interrupted, and of the memory only words below that have changed. -/
theorem Enters.spec (he : Enters k ra m m') (h : k + 8 ≤ m.reg .esp) (hlt : m.reg .esp < 2 ^ 32) :
    m'.reg .esp = m.reg .esp - 8 - k ∧ m'.reg .ebp = m.reg .esp - 4 ∧
      m'.mem (m.reg .esp - 4) = m.reg .ebp ∧
      (∀ r, r = .ebx ∨ r = .esi ∨ r = .edi → m'.reg r = m.reg r) ∧
      ∀ a, a < m.reg .esp - 8 - k ∨ m.reg .esp ≤ a → m'.mem a = m.mem a := by
  obtain ⟨hesp, hebp, hpush⟩ := run_prologue ra h hlt
  have hreg := he.reg
  have hmem := he.mem
  rw [hesp, hebp] at hmem
  simp only [hpush] at hreg hmem
  refine ⟨?_, ?_, ?_, ?_, ?_⟩
  · rw [hreg .esp nofun nofun nofun, update_self]
  · rw [hreg .ebp nofun nofun nofun, update_of_ne (by decide), update_self]
  · rw [hmem _ (.inr (by omega)), update_of_ne (by omega), update_self]
  · rintro r (rfl | rfl | rfl)
    · simp [hreg .ebx nofun nofun nofun]
    · simp [hreg .esi nofun nofun nofun]
    · simp [hreg .edi nofun nofun nofun]
  · intro a ha
    rw [hmem a (by omega), update_of_ne (by omega), update_of_ne (by omega)]

/-- Where a preempted thread goes on: at the word on top of the stack it was interrupted with,
and with the stack pointer behind that word. -/
structure Derailed (g : Image) (s : State) (m : Machine) : Prop where
  esp : m.reg .esp = s.m.reg .esp + 4
  eip : s.m.reg .esp < g.stackHi (g.current s.m.mem) → m.eip = s.m.mem (s.m.reg .esp)
  ebp : m.reg .ebp = s.m.reg .ebp
  reg : ∀ r, r = .ebx ∨ r = .esi ∨ r = .edi → m.reg r = s.m.reg r
  stack : ∀ a, s.m.reg .esp ≤ a → a < g.stackHi (g.current s.m.mem) → m.mem a = s.m.mem a

theorem Preempted.derailed (h : Inv g s) (hp : p.Preemptible) (hpre : Preempted g p s m) :
    Derailed g s m := by
  cases hpre with
  | @back k ra ls s1 s2 s3 s4 htop hroom hlive henter hctx hleaving hleave haway hrun hback hcur =>
  have hlt := h.lt
  have hhi := Image.stackHi_le hlt
  rw [interrupt_eq hp] at henter
  obtain ⟨hesp, hebp, hframe, hregs, hmem⟩ := henter.spec (show k + 8 ≤ s.m.reg .esp by omega)
    (show s.m.reg .esp < 2 ^ 32 by omega)
  dsimp only at hesp hebp hframe hregs hmem
  -- `thread_schedule` has written to the stack of the thread only
  have hwrites (a : Nat) (hne : s1.m.mem a ≠ s.m.mem a) : Writes g (g.current s.m.mem) a := by
    by_contra hnot
    exact hne (hmem a (by by_contra hin; exact hnot (.inl (by omega))))
  have hinv1 : Inv g s1 := h.of_writes hctx hleaving hwrites
  have hcur1 : g.current s1.m.mem = g.current s.m.mem := by
    apply current_congr
    by_contra hne
    exact ((hwrites _ hne).ne hlt).1 rfl
  have hlive1 : g.state s1.m.mem (g.current s.m.mem) ≠ .free := by
    rw [state_congr]
    · exact hlive
    · by_contra hne
      exact ((hwrites _ hne).ne hlt).2.1 _ hlt rfl
  rw [← hcur1] at hlive1 haway hrun hcur
  obtain ⟨hreg4, _, hstack⟩ := round_trip hinv1 hlive1 hleave haway hrun hback hcur
  rw [hcur1] at hstack
  have hebp4 : s4.m.reg .ebp = s.m.reg .esp - 4 := by
    rw [hreg4, update_of_ne (by decide), hebp]
  rw [run_epilogue (by omega), hebp4]
  constructor
  · dsimp only
    rw [update_self]
    omega
  · intro hin
    dsimp only
    rw [show s.m.reg .esp - 4 + 4 = s.m.reg .esp by omega, hstack _ (by omega) hin]
    exact hmem _ (.inr (by omega))
  · dsimp only
    rw [update_of_ne (by decide), update_self, hstack _ (by omega) (by omega)]
    exact hframe
  · intro r hr
    have hne : r ≠ .esp ∧ r ≠ .ebp := by
      rcases hr with rfl | rfl | rfl <;> decide
    dsimp only
    rw [update_of_ne hne.1, update_of_ne hne.2, hreg4, update_of_ne hne.1]
    exact hregs r hr
  · intro a hlo ha
    exact (hstack a (by omega) ha).trans (hmem a (.inr hlo))

/-- The stack pointer is off, so the thread never goes on as it was. -/
theorem Derailed.not_resumes (h : Derailed g s m) : ¬ Resumes g s m := by
  intro hr
  have hesp := h.esp
  rw [hr.reg] at hesp
  omega

/-! ## Where preemption is transparent -/

/-- A timer interrupt of process `p`: in user mode, in any state in which the threads that do not
run have their frames, with all that follows until the thread goes on; or in the kernel, while
the process is in a system call. -/
inductive Interrupt (p : Proc) where
  | user (g : Image) (s : State) (m : Machine) (hinv : Inv g s) (hpre : Preempted g p s m)
  | kernel

/-- The interrupt makes no difference: the thread goes on as it was, and the system call returns
where it would have. -/
def Interrupt.Transparent : Interrupt p → Prop
  | .user g s m _ _ => Resumes g s m
  | .kernel => (timer p).tf.eip = p.tf.eip

/-- The interrupt was taken in the kernel. -/
def Interrupt.InKernel : Interrupt p → Prop
  | .user .. => False
  | .kernel => True

/-- Preemption is never transparent in user mode; in the kernel it is only where the system call
returns to the scheduler anyway. -/
theorem transparent_iff (hp : p.Preemptible) (i : Interrupt p) :
    i.Transparent ↔ i.InKernel ∧ p.tf.eip = p.scheduler := by
  cases i with
  | user g s m hinv hpre =>
    have hnot := (hpre.derailed hinv hp).not_resumes
    exact ⟨fun h => absurd h hnot, fun h => h.1.elim⟩
  | kernel =>
    show (timer p).tf.eip = p.tf.eip ↔ True ∧ p.tf.eip = p.scheduler
    rw [timer_eip hp, true_and]
    exact eq_comm

/-! ## A preempted thread -/

/-- A process with two threads, in a system call that was made at `0x300`. -/
def sampleProc : Proc :=
  sysCheckThread 1 (sysCheckThread 1 (sysUthreadInit 0x90 ⟨true, 0, 0, ⟨fun _ => 0, 0x300⟩⟩))

theorem sampleProc_preemptible : sampleProc.Preemptible :=
  ⟨rfl, by decide, by decide⟩

/-- The main thread creates two threads and switches to the first. -/
def beforeInterrupt : List Label :=
  [.create 0x40, .create 0x80, .compute (regs 0x17f00 1) 0 [(0x17f00, 0x500)], .schedule,
    .compute (regs 0x4f00 11) 0x44 [(0x4f00, 0x510)]]

/-- The first thread is interrupted at `0x44`, the second runs and switches back. -/
theorem exists_preempted :
    ∃ s m, Run (Steps (sample .uthread1))
        (start (sample .uthread1) ⟨fun _ => 0, 0, fun _ => 0⟩) beforeInterrupt s ∧
      Inv (sample .uthread1) s ∧ Preempted (sample .uthread1) sampleProc s m ∧
      (s.m.eip = 0x44 ∧ s.m.reg .esp = 0x4f00) ∧ m.eip = 0x510 ∧ m.reg .esp = 0x4f04 := by
  let g := sample .uthread1
  let s0 := start g ⟨fun _ => 0, 0, fun _ => 0⟩
  let a1 := create g 0x40 s0
  let a2 := create g 0x80 a1
  let a3 := compute (regs 0x17f00 1) 0 [(0x17f00, 0x500)] a2
  let a4 := switch g 1 a3
  let s := compute (regs 0x4f00 11) 0x44 [(0x4f00, 0x510)] a4
  let s1 : State := ⟨(run (prologue 24) (interrupt sampleProc s.m)).push 0x99, s.ctx, s.leaving⟩
  let s2 := switch g 2 s1
  let s3 := compute (regs 0x6f00 22) 0 [(0x6f00, 0x520)] s2
  let s4 := switch g 1 s3
  have hfits (s : State) (l : Label) : l.Fits g s := by
    cases l with
    | create func => nofun
    | _ => trivial
  have h1 : Steps g s0 (.create 0x40) a1 := steps_create rfl
  have h2 : Steps g a1 (.create 0x80) a2 := steps_create (by decide +kernel)
  have h3 : Steps g a2 (.compute (regs 0x17f00 1) 0 [(0x17f00, 0x500)]) a3 :=
    steps_compute (by decide +kernel)
  have h4 : Steps g a3 .schedule a4 :=
    steps_switch (by decide +kernel) (by decide +kernel) (by decide +kernel)
  have h5 : Steps g a4 (.compute (regs 0x4f00 11) 0x44 [(0x4f00, 0x510)]) s :=
    steps_compute (by decide +kernel)
  have hleave : Steps g s1 .schedule s2 :=
    steps_switch (by decide +kernel) (by decide +kernel) (by decide +kernel)
  have hother : Steps g s2 (.compute (regs 0x6f00 22) 0 [(0x6f00, 0x520)]) s3 :=
    steps_compute (by decide +kernel)
  have hback : Steps g s3 .schedule s4 :=
    steps_switch (by decide +kernel) (by decide +kernel) (by decide +kernel)
  have hcur : g.current s.m.mem = 1 := by decide +kernel
  have hcur2 : g.current s2.m.mem = 2 := by decide +kernel
  have hcur3 : g.current s3.m.mem = 2 := by decide +kernel
  have hcur4 : g.current s4.m.mem = 1 := by decide +kernel
  have hlive : g.state s.m.mem (g.current s.m.mem) ≠ .free := by decide +kernel
  have hesp : s.m.reg .esp = 0x4f00 := by decide +kernel
  have htop : g.stackHi 1 = 0x500c := by decide +kernel
  have hlo : g.stackLo 1 = 0x300c := by decide +kernel
  have hfinal : (run epilogue s4.m).eip = 0x510 ∧ (run epilogue s4.m).reg .esp = 0x4f04 := by
    decide +kernel
  have henter : Enters 24 0x99 (interrupt sampleProc s.m) s1.m :=
    ⟨fun _ _ _ _ => rfl, fun _ _ => rfl⟩
  have hrun : Run (fun s l s' => Steps g s l s' ∧ l.Fits g s) s0 beforeInterrupt s :=
    ((((Run.single ⟨h1, hfits _ _⟩).snoc ⟨h2, hfits _ _⟩).snoc ⟨h3, hfits _ _⟩).snoc
      ⟨h4, hfits _ _⟩).snoc ⟨h5, hfits _ _⟩
  have haway : g.current s2.m.mem ≠ g.current s.m.mem := by
    rw [hcur, hcur2]
    decide
  have hrun' : Run (fun s' l s'' => Steps g s' l s'' ∧ l.Fits g s' ∧
      g.current s''.m.mem ≠ g.current s.m.mem) s2 _ s3 :=
    Run.single ⟨hother, hfits _ _, by rw [hcur, hcur3]; decide⟩
  have hinv : Inv g s := hrun.invariant (Inv.start g _) fun s l s' hi hs => hi.step hs.1 hs.2
  refine ⟨s, run epilogue s4.m, hrun.mono fun _ _ _ h => h.1, hinv, ?_, ⟨rfl, hesp⟩, hfinal⟩
  apply Preempted.back (k := 24)
  · rw [hcur, htop, hesp]
    decide
  · rw [hcur, hlo, hesp]
    decide
  · exact hlive
  · exact henter
  · rfl
  · rfl
  · exact hleave
  · exact haway
  · exact hrun'
  · exact hback
  · exact hcur4.trans hcur.symm

/-- The two ways in which the interrupt shows: the thread goes on at the word on top of its
stack, and the system call returns to the scheduler. -/
theorem interrupt_shows :
    (∃ (s : State) (m : Machine) (hinv : Inv (sample .uthread1) s)
      (hpre : Preempted (sample .uthread1) sampleProc s m),
      Run (Steps (sample .uthread1)) (start (sample .uthread1) ⟨fun _ => 0, 0, fun _ => 0⟩)
        beforeInterrupt s ∧
      (s.m.eip = 0x44 ∧ s.m.reg .esp = 0x4f00) ∧ (m.eip = 0x510 ∧ m.reg .esp = 0x4f04) ∧
      ¬ (Interrupt.user _ s m hinv hpre).Transparent) ∧
    (sampleProc.tf.eip = 0x300 ∧ (timer sampleProc).tf.eip = 0x90 ∧
      ¬ (Interrupt.kernel (p := sampleProc)).Transparent) := by
  obtain ⟨s, m, hrun, hinv, hpre, hs, hm⟩ := exists_preempted
  refine ⟨⟨s, m, hinv, hpre, hrun, hs, hm, fun h => ?_⟩, rfl, rfl, fun h => ?_⟩
  · have hreg : m.reg .esp = s.m.reg .esp := congrFun (Resumes.reg h) .esp
    rw [hm.2, hs.2] at hreg
    cases hreg
  · change (0x90 : Nat) = 0x300 at h
    cases h

/-- The interrupts of a process with two threads. -/
theorem transparent_iff_sampleProc :
    (∃ i : Interrupt sampleProc, ¬ i.InKernel ∧
      (i.Transparent ↔ i.InKernel ∧ sampleProc.tf.eip = sampleProc.scheduler)) ∧
    ((Interrupt.kernel (p := sampleProc)).Transparent ↔
      (Interrupt.kernel (p := sampleProc)).InKernel ∧
        sampleProc.tf.eip = sampleProc.scheduler) := by
  obtain ⟨s, m, _, hinv, hpre, _⟩ := exists_preempted
  exact ⟨⟨.user _ s m hinv hpre, id, transparent_iff sampleProc_preemptible _⟩,
    transparent_iff sampleProc_preemptible _⟩

end Preempt
end Uthread
end Xv6
